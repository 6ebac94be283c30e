import Depot.Gateway

/-!
# What an exchange counts

The counters are separate: what is added to one of them leaves the others alone.

## Main results

* `Exchange.value_count_sent` — the bytes of a stream that were sent are counted.
-/

namespace Depot

namespace Metrics

variable {m : Metrics} {name : String}

/-- What a counter has come to. -/
def value (m : Metrics) (name : String) : Nat := (SortedMap.get? m name).getD 0

theorem value_add (m : Metrics) (name other : String) (n : Nat) :
    (m.add name n).value other = if other = name then m.value name + n else m.value other := by
  unfold add
  split
  · next hn =>
    split
    · next heq => rw [heq, hn, Nat.add_zero]
    · rfl
  · rw [value, SortedMap.get?_insert]
    split <;> rfl

theorem prefix_series (name : String) (labels : List (String × String)) :
    name.toList <+: (series name labels).toList := by
  unfold series
  split
  · exact List.prefix_refl _
  · rw [String.append_assoc, String.append_assoc, String.toList_append]
    exact List.prefix_append ..

/-- A counter whose name begins otherwise is not that of the bytes sent. -/
theorem series_ne_sent (h : ¬ name.toList <+: sent.toList) (labels : List (String × String)) :
    sent ≠ series name labels := fun heq => h (heq ▸ prefix_series name labels)

end Metrics

/-- Of an exchange that is answered with a stream, all bytes that were sent are counted. -/
theorem Exchange.value_count_sent (x : Exchange) {o : Outcome} {outlet : Outlet} (payload : Bytes) (m : Metrics)
    (h : o.answer.payload = .stream outlet) :
    (x.count o payload m).value Metrics.sent = m.value Metrics.sent + payload.length := by
  have hrequests (method path : String) (status : Nat) : Metrics.sent ≠ Metrics.requests method path status :=
    Metrics.series_ne_sent (by decide) _
  have htimed (method path : String) : Metrics.sent ≠ Metrics.timed method path :=
    Metrics.series_ne_sent (by decide) _
  have htransfers (kind : TransferKind) (status : Nat) : Metrics.sent ≠ Metrics.transfers kind status :=
    Metrics.series_ne_sent (by decide) _
  have hreceived : Metrics.sent ≠ Metrics.received := Metrics.series_ne_sent (by decide) _
  unfold count
  cases o.transfer <;> dsimp only <;> split <;>
    simp [Metrics.value_add, hrequests, htimed, htransfers, hreceived, h]

end Depot
