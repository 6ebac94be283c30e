import Depot.Proofs.Instant.Relaxed
import Depot.Proofs.Json
import Depot.Record.Reader

/-!
# Reading records back

The compact text of a record is read back as the record. What a record leaves out, because it has none of it,
comes back as its default.

## Main results

* `Json.Reader.takesMember_natural` — a number is read back, up to where its digits end.
* `ObjectRecord.ofText_compact` — a record is read back.
-/

namespace Depot

namespace Json.Reader

/-! ## Numbers -/

variable {n : Nat} {rest : List Char}

/-- The digits of a positive number do not begin with a zero. -/
theorem head?_toDigits (h : 0 < n) : (Nat.toDigits 10 n).head? ≠ some '0' := by
  induction n using Nat.strongRecOn with
  | _ n ih =>
    by_cases hlt : n < 10
    · rw [Nat.toDigits_of_lt_base hlt]
      interval_cases n <;> decide
    · rw [Nat.toDigits_of_base_le (by decide) (by omega), List.head?_append_of_ne_nil _ Nat.toDigits_ne_nil]
      exact ih (n / 10) (by omega) (by omega)

/-- What ends a member is not a part of a number. -/
theorem EndsMember.cases (h : EndsMember rest) : ∃ c more, rest = c :: more ∧ (c = ',' ∨ c = '\x7d') := by
  cases rest with
  | nil => rcases h with h | h <;> cases h
  | cons c more => exact ⟨c, more, rfl, by simpa [EndsMember] using h⟩

theorem run_digits {ds : List Char} (hds : ∀ c ∈ ds, c.isDigit = true) (hrest : EndsMember rest) :
    StateT.run digits (ds ++ rest) = .ok (ds, rest) := by
  obtain ⟨c, more, rfl, hc⟩ := hrest.cases
  have hnot : ¬ c.isDigit = true := by rcases hc with rfl | rfl <;> decide
  show Except.ok ((ds ++ c :: more).takeWhile Char.isDigit, (ds ++ c :: more).dropWhile Char.isDigit) = _
  rw [List.takeWhile_append_of_pos hds, List.takeWhile_cons_of_neg hnot, List.append_nil,
    List.dropWhile_append_of_pos hds, List.dropWhile_cons_of_neg hnot]

theorem isSpace_of_isDigit {c : Char} (h : c.isDigit = true) : isSpace c = false := by
  rw [Bool.eq_false_iff]
  intro hspace
  simp only [isSpace, Bool.or_eq_true, beq_iff_eq, or_assoc] at hspace
  rcases hspace with rfl | rfl | rfl | rfl <;> exact absurd h (by decide)

theorem takesMember_numberBody (n : Nat) :
    (numberBody false).TakesMember (Nat.toDigits 10 n) ⟨false, Nat.toDigits 10 n, none, none⟩ := by
  intro rest hrest
  obtain ⟨c, more, rfl, hc⟩ := hrest.cases
  rcases Nat.eq_zero_or_pos n with rfl | hpos
  · rw [Nat.toDigits_zero]
    rcases hc with rfl | rfl <;> rfl
  · have hall : ∀ d ∈ Nat.toDigits 10 n, d.isDigit = true :=
      fun d hd => Nat.isDigit_of_mem_toDigits (by decide) (by decide) hd
    have hhead := head?_toDigits hpos
    have hdigits := run_digits hall hrest
    cases hcs : Nat.toDigits 10 n with
    | nil => exact absurd hcs Nat.toDigits_ne_nil
    | cons d ds =>
      rw [hcs] at hall hhead hdigits
      have hzero : d ≠ '0' := by simpa using hhead
      rw [numberBody, StateT.run_bind, StateT.run_get, pure_bind]
      split
      · rename_i hnil
        cases hnil
      · rename_i hcons
        exact absurd (List.cons.inj hcons).1 hzero
      · rename_i hcons
        obtain ⟨rfl, -⟩ := List.cons.inj hcons
        rw [if_pos (hall _ List.mem_cons_self), StateT.run_bind, hdigits]
        rcases hc with rfl | rfl <;> rfl

theorem isHuge_natural {whole : List Char} {n : Nat} (hn : Text.decimal? whole = some n) (hbound : n < Text.wordBound) :
    Number.isHuge ⟨false, whole, none, none⟩ = false := by
  have hlimit : Text.wordBound ≤ (1 <<< 1024) - (1 <<< 970) := by decide
  simp [Number.isHuge, hn]
  omega

/-- A number is read back, up to where its digits end. -/
theorem takesMember_natural {bound : Nat} (hn : n < bound) (hbound : bound ≤ Text.wordBound) :
    (natural bound).TakesMember (toString n).toList n := by
  have hdecimal : Text.decimal? (Nat.toDigits 10 n) = some n := by
    have hpadded := Text.decimal?_padded 0 n
    rwa [Text.toList_padded, Nat.zero_sub, List.replicate_zero, List.nil_append, Nat.toString_eq_ofList_toDigits,
      String.toList_ofList] at hpadded
  have hhuge := isHuge_natural hdecimal (Nat.lt_of_lt_of_le hn hbound)
  rw [Nat.toString_eq_ofList_toDigits, String.toList_ofList]
  have hbounded : (boundedNumber false).TakesMember (Nat.toDigits 10 n) ⟨false, Nat.toDigits 10 n, none, none⟩ := by
    intro rest hrest
    rw [boundedNumber, (takesMember_numberBody n).run_bind hrest, hhuge]
    rfl
  have hall : ∀ d ∈ Nat.toDigits 10 n, d.isDigit = true :=
    fun d hd => Nat.isDigit_of_mem_toDigits (by decide) (by decide) hd
  intro rest hrest
  cases hcs : Nat.toDigits 10 n with
  | nil => exact absurd hcs Nat.toDigits_ne_nil
  | cons d ds =>
    rw [hcs] at hall hbounded hdecimal
    have hdigit := hall d List.mem_cons_self
    have hnatural : Number.natural? ⟨false, d :: ds, none, none⟩ = some n := hdecimal
    rw [natural, List.cons_append, run_peek_bind (isSpace_of_isDigit hdigit)]
    simp only [hdigit, if_true]
    rw [← List.cons_append, hbounded.run_bind hrest, hnatural]
    dsimp only
    rw [if_pos hn]
    rfl

/-- A value that begins with a quote is there. -/
theorem takesMember_optional {α : Type} {r : Reader α} {cs : List Char} {a : α} (hr : r.TakesMember ('"' :: cs) a) :
    (optional r).TakesMember ('"' :: cs) (some a) := by
  intro rest hrest
  rw [optional, List.cons_append, run_peek_bind (by decide)]
  exact hr.map some rest hrest

end Json.Reader

namespace ObjectRecord

open Json (quote compact)
open Json.Reader

/-! ## The values of the fields -/

theorem takes_readTime {t : Instant} (ht : t.InBounds) : readTime.TakesMember (quote t.fullText).toList t := by
  intro rest _
  rw [readTime, (takes_string t.fullText).run_bind, Instant.parseRelaxed?_fullText ht]
  rfl

theorem takes_readStatus (s : Status) : readStatus.TakesMember (quote s.name).toList s := by
  intro rest _
  have hname : StateT.run readStatusName ((quote s.name).toList ++ rest) = .ok (s, rest) := by
    rw [readStatusName, (takes_string s.name).run_bind, Status.ofName?_name]
    rfl
  rw [toList_quote, List.cons_append] at hname ⊢
  rw [readStatus, run_peek_bind (by decide)]
  exact hname

theorem takes_readMetadata {m : Metadata} (hm : m.Sorted) :
    readMetadata.TakesMember m.toJson.compact.toList m := by
  have hread := (takes_stringMap hm.nodup_keys).member.map SortedMap.ofList
  rwa [hm.ofList_of_perm (.refl m)] at hread

/-! ## The fields -/

variable {d e : Draft} {name : String} {cs : List Char}

/-- The text of an entry of an object. -/
def memberText (f : String × Json) : String × List Char := (f.1, (compact f.2).toList)

/-- Whether reading the members of an object leads from one draft to another. -/
abbrev Reads (members : List (String × Json)) (d e : Draft) : Prop := Follows readField (members.map memberText) d e

theorem Reads.append {ms ns : List (String × Json)} {c : Draft} (h : Reads ms c d) (hrest : Reads ns d e) :
    Reads (ms ++ ns) c e := by
  rw [Reads, List.map_append]
  exact Follows.append h hrest

/-- Whether a field that was not read before is put into a draft once its value is read. -/
def Puts {α : Type} (name : String) (d : Draft) (r : Json.Reader α) (put : Option α → Draft) : Prop :=
  readField name d = once none r >>= fun x => pure (put x)

theorem Puts.reads {α : Type} {r : Json.Reader α} {put : Option α → Draft} {a : α} {j : Json}
    (h : Puts name d r put) (hr : r.TakesMember (compact j).toList a) : Reads [(name, j)] d (put (some a)) := by
  have honce : (once none r).TakesMember (':' :: (compact j).toList) (some a) := (hr.map some).behind_colon
  refine .cons ?_ (.nil _)
  show (readField name d).TakesMember _ _
  rw [h]
  exact honce.bind_pure

theorem Puts.reads_string {put : Option String → Draft} (h : Puts name d string put) (s : String) :
    Reads [(name, .string s)] d (put (some s)) :=
  h.reads (Json.compact_string s ▸ (takes_string s).member)

/-- What is left out leaves its field as it is. -/
theorem Puts.reads_optional {α : Type} {r : Json.Reader α} {put : Option (Option α) → Draft} {o : Option α}
    (text : α → String) (h : Puts name d (optional r) put) (hnone : put none = d)
    (hr : ∀ a, o = some a → r.TakesMember (quote (text a)).toList a) :
    Reads (Json.optionalField name (o.map text)) d (put (o.map some)) := by
  cases o with
  | none => exact hnone ▸ .nil _
  | some a =>
    refine h.reads ?_
    have htake := hr a rfl
    rw [Json.compact_string]
    rw [toList_quote] at htake ⊢
    exact takesMember_optional htake

/-- Whether a record is one that a text can hold: its attributes are in order, its size is a number of sixty-four
bits, and its times are in the years that can be named. -/
structure WellTyped (r : ObjectRecord) : Prop where
  metadata : r.metadata.Sorted
  size : r.size < Text.wordBound
  creation : ∀ t ∈ r.creation, t.InBounds
  expires : ∀ t ∈ r.expires, t.InBounds

variable {r : ObjectRecord}

theorem reads_names (r : ObjectRecord) :
    Reads [("id", .string r.id), ("site", .string r.site), ("bucket", .string r.bucket), ("name", .string r.name)] {}
      { id := some r.id, site := some r.site, bucket := some r.bucket, name := some r.name } := by
  have hid : Puts "id" {} string fun x => { id := x } := rfl
  have hsite : Puts "site" { id := some r.id } string fun x => { id := some r.id, site := x } := rfl
  have hbucket : Puts "bucket" { id := some r.id, site := some r.site } string
    fun x => { id := some r.id, site := some r.site, bucket := x } := rfl
  have hname : Puts "name" { id := some r.id, site := some r.site, bucket := some r.bucket } string
    fun x => { id := some r.id, site := some r.site, bucket := some r.bucket, name := x } := rfl
  exact (hid.reads_string r.id).append <| (hsite.reads_string r.site).append <|
    (hbucket.reads_string r.bucket).append (hname.reads_string r.name)

theorem reads_hash (o : Option String) (h : d.hash = none) :
    Reads (Json.optionalField "hash" o) d { d with hash := o.map some } := by
  have hputs : Puts "hash" d (optional string) fun x => { d with hash := x } := by
    rw [Puts, ← h]
    rfl
  have hread := hputs.reads_optional (fun s => s) (by rw [← h]) fun s (_ : o = some s) => (takes_string s).member
  rwa [Option.map_id'] at hread

theorem reads_status (s : Status) (h : d.status = none) :
    Reads [("status", .string s.name)] d { d with status := some s } := by
  have hputs : Puts "status" d readStatus fun x => { d with status := x } := by
    rw [Puts, ← h]
    rfl
  exact hputs.reads (Json.compact_string s.name ▸ takes_readStatus s)

theorem Puts.reads_time {put : Option (Option Instant) → Draft} {o : Option Instant}
    (h : Puts name d (optional readTime) put) (hnone : put none = d) (ho : ∀ t ∈ o, t.InBounds) :
    Reads (Json.optionalField name (o.map (·.fullText))) d (put (o.map some)) := by
  refine h.reads_optional (·.fullText) hnone ?_
  intro t ht
  exact takes_readTime (ho t ht)

theorem reads_creation {o : Option Instant} (ho : ∀ t ∈ o, t.InBounds) (h : d.creation = none) :
    Reads (Json.optionalField "creation" (o.map (·.fullText))) d { d with creation := o.map some } := by
  have hputs : Puts "creation" d (optional readTime) fun x => { d with creation := x } := by
    rw [Puts, ← h]
    rfl
  exact hputs.reads_time (by rw [← h]) ho

theorem reads_expires {o : Option Instant} (ho : ∀ t ∈ o, t.InBounds) (h : d.expires = none) :
    Reads (Json.optionalField "expires" (o.map (·.fullText))) d { d with expires := o.map some } := by
  have hputs : Puts "expires" d (optional readTime) fun x => { d with expires := x } := by
    rw [Puts, ← h]
    rfl
  exact hputs.reads_time (by rw [← h]) ho

theorem reads_size {n : Nat} (hn : n < Text.wordBound) (h : d.size = none) :
    Reads [("size", .number n)] d { d with size := some n } := by
  have hputs : Puts "size" d readSize fun x => { d with size := x } := by
    rw [Puts, ← h]
    rfl
  refine hputs.reads ?_
  have htext : compact (.number n) = toString n := by rw [compact]; rfl
  rw [htext]
  exact takesMember_natural hn (Nat.le_refl _)

/-- Attributes are left out if there are none. -/
theorem reads_metadata {m : Metadata} (hm : m.Sorted) (h : d.metadata = none) :
    Reads (if m.isEmpty then [] else [("metadata", m.toJson)]) d
      { d with metadata := if m.isEmpty then none else some m } := by
  have hputs : Puts "metadata" d readMetadata fun x => { d with metadata := x } := by
    rw [Puts, ← h]
    rfl
  by_cases hempty : m.isEmpty = true
  · rw [if_pos hempty, if_pos hempty, ← h]
    exact .nil d
  · rw [if_neg hempty, if_neg hempty]
    exact hputs.reads (takes_readMetadata hm)

/-- The draft of a record once all its fields are read. -/
def draft (r : ObjectRecord) : Draft where
  id := some r.id
  site := some r.site
  bucket := some r.bucket
  name := some r.name
  hash := r.hash.map some
  status := some r.status
  creation := r.creation.map some
  expires := r.expires.map some
  size := some r.size
  metadata := if r.metadata.isEmpty then none else some r.metadata

/-- The fields of a record are read one after the other. -/
theorem reads_draft (h : r.WellTyped) : ∃ members, r.toJson = .object members ∧ Reads members {} r.draft := by
  refine ⟨_, rfl, ?_⟩
  exact (((((((reads_names r).append (reads_hash r.hash rfl)).append (reads_status r.status rfl)).append
    (reads_creation h.creation rfl)).append (reads_expires h.expires rfl)).append (reads_size h.size rfl)).append
    (reads_metadata h.metadata rfl))

theorem finish_draft (r : ObjectRecord) : r.draft.finish = pure r := by
  have hjoin {α : Type} (o : Option α) : (o.map some).join = o := by cases o <;> rfl
  have hmetadata : (if r.metadata.isEmpty then none else some r.metadata).getD [] = r.metadata := by
    split
    · rename_i hempty
      exact (List.isEmpty_iff.mp hempty).symm
    · rfl
  show (pure _ : Json.Reader ObjectRecord) = pure r
  congr 1
  simp only [draft, hjoin, hmetadata]

/-- A record is read back. -/
theorem takes_reader (h : r.WellTyped) : reader.Takes r.toJson.compact.toList r := by
  obtain ⟨members, hmembers, hreads⟩ := reads_draft h
  intro rest
  rw [hmembers]
  have hfields := run_fields_object hreads rest (g := fun d => do
    let r ← d.finish
    advance
    return r)
  rw [Json.toList_compact_object, List.cons_append] at hfields ⊢
  rw [reader, run_peek_bind (by decide)]
  refine hfields.trans ?_
  rw [finish_draft, pure_bind]
  rfl

/-- A record is read back from its text. -/
theorem ofText_compact (h : r.WellTyped) : ofText r.toJson.compact = .ok r := (takes_reader h).run

end ObjectRecord

end Depot
