import Depot.Record
import Depot.Proofs.SortedMap
import Mathlib.Tactic.IntervalCases

/-!
# Reading JSON back

The compact text of an object of texts is read back as the object, whatever characters its texts hold, so
that the attributes of an object survive being kept as a text.

## Main results

* `Json.Reader.takes_stringBody` — a quoted text is read back, and no more than it.
* `Json.Reader.run_stringMap` — an object of texts is read back.
* `Metadata.ofText_compact` — attributes are read back.
-/

namespace Depot.Json

namespace Reader

/-- Whether a reader takes `taken` from the front of a text, whatever follows, and makes `a` of it. -/
def Takes {α : Type} (r : Reader α) (taken : List Char) (a : α) : Prop :=
  ∀ rest, StateT.run r (taken ++ rest) = .ok (a, rest)

variable {α β : Type} {r : Reader α} {f : α → Reader β} {front more : List Char} {a : α} {b : β}

theorem takes_pure (a : α) : (pure a : Reader α).Takes [] a := fun _ => rfl

/-- A reader goes on where the one before it has left off. -/
theorem Takes.run_bind (hr : r.Takes front a) (rest : List Char) :
    StateT.run (r >>= f) (front ++ rest) = StateT.run (f a) rest := by
  rw [StateT.run_bind, hr]
  rfl

theorem Takes.bind (hr : r.Takes front a) (hf : (f a).Takes more b) : (r >>= f).Takes (front ++ more) b := by
  intro rest
  rw [List.append_assoc, hr.run_bind, hf rest]

/-- Whether a text goes on behind a member of an object, with the next one or with the end of the object. -/
def EndsMember (rest : List Char) : Prop := rest.head? = some ',' ∨ rest.head? = some '\x7d'

/-- Whether a reader takes `taken` from the front of a text and makes `a` of it, if a member ends there. A number
goes on as long as there are digits. -/
def TakesMember {α : Type} (r : Reader α) (taken : List Char) (a : α) : Prop :=
  ∀ rest, EndsMember rest → StateT.run r (taken ++ rest) = .ok (a, rest)

theorem Takes.member (hr : r.Takes front a) : r.TakesMember front a := fun rest _ => hr rest

theorem Takes.bind_member (hr : r.Takes front a) (hf : (f a).TakesMember more b) :
    (r >>= f).TakesMember (front ++ more) b := by
  intro rest hrest
  rw [List.append_assoc, hr.run_bind, hf rest hrest]

theorem TakesMember.run_bind (hr : r.TakesMember front a) {rest : List Char} (hrest : EndsMember rest) :
    StateT.run (r >>= f) (front ++ rest) = StateT.run (f a) rest := by
  rw [StateT.run_bind, hr rest hrest]
  rfl

theorem TakesMember.bind_pure (hr : r.TakesMember front a) {g : α → β} :
    (r >>= fun a => pure (g a)).TakesMember front (g a) := by
  intro rest hrest
  rw [hr.run_bind hrest, StateT.run_pure]
  rfl

theorem TakesMember.map (hr : r.TakesMember front a) (g : α → β) : (g <$> r).TakesMember front (g a) := by
  intro rest hrest
  rw [StateT.run_map, hr rest hrest]
  rfl

theorem hexDigit?_hexDigit {n : Nat} (h : n < 16) : Text.hexDigit? (Text.hexDigit n) = some n := by
  interval_cases n <;> rfl

theorem takes_hex4 {n : Nat} (h : n < 32) :
    hex4.Takes ['0', '0', Text.hexDigit (n / 16), Text.hexDigit (n % 16)] n := by
  intro rest
  have hdigits : (List.take 4 (['0', '0', Text.hexDigit (n / 16), Text.hexDigit (n % 16)] ++ rest)).map
      Text.hexDigit? = [some 0, some 0, some (n / 16), some (n % 16)] := by
    have hzero : Text.hexDigit? '0' = some 0 := by decide
    simp [hzero, hexDigit?_hexDigit (show n / 16 < 16 by omega), hexDigit?_hexDigit (show n % 16 < 16 by omega)]
  have hvalue : ((0 * 16 + 0) * 16 + n / 16) * 16 + n % 16 = n := by omega
  rw [hex4, StateT.run_bind, StateT.run_get]
  simp only [pure_bind, hdigits, StateT.run_bind, StateT.run_set, StateT.run_pure, hvalue]
  rfl

/-- A character stands in a text as it is, or behind a backslash. -/
theorem escape_cases (c : Char) :
    (∃ code, escape c = '\\' :: code ∧ (escaped false).Takes code c) ∨
      escape c = [c] ∧ c ≠ '"' ∧ c ≠ '\\' ∧ 32 ≤ c.toNat := by
  rw [escape]
  split
  · subst_vars
    exact .inl ⟨_, rfl, fun _ => rfl⟩
  split
  · subst_vars
    exact .inl ⟨_, rfl, fun _ => rfl⟩
  split
  · subst_vars
    exact .inl ⟨_, rfl, fun _ => rfl⟩
  split
  · subst_vars
    exact .inl ⟨_, rfl, fun _ => rfl⟩
  split
  · subst_vars
    exact .inl ⟨_, rfl, fun _ => rfl⟩
  split
  · rename_i hc
    obtain rfl : c = Char.ofNat 8 := by rw [← hc, Char.ofNat_toNat]
    exact .inl ⟨_, rfl, fun _ => rfl⟩
  split
  · rename_i hc
    obtain rfl : c = Char.ofNat 12 := by rw [← hc, Char.ofNat_toNat]
    exact .inl ⟨_, rfl, fun _ => rfl⟩
  split
  · rename_i hc
    have hlow : ¬ (0xDC00 ≤ c.toNat ∧ c.toNat ≤ 0xDFFF) := by omega
    have hhigh : ¬ (0xD800 ≤ c.toNat ∧ c.toNat ≤ 0xDBFF) := by omega
    have hcode : unicodeEscape.Takes (_ ++ []) c := (takes_hex4 hc).bind <| by
      rw [if_neg hlow, if_neg hhigh, Char.ofNat_toNat]
      exact takes_pure c
    exact .inl ⟨_, rfl, hcode⟩
  · exact .inr ⟨rfl, by assumption, by assumption, by omega⟩

/-- Reading on behind a character. -/
theorem takes_quoted_cons {c : Char} {acc : List Char} {fuel : Nat} {a : String}
    (h : (quoted false fuel (c :: acc)).Takes more a) :
    (quoted false (fuel + 1) acc).Takes (escape c ++ more) a := by
  intro rest
  rw [quoted, StateT.run_bind, StateT.run_get]
  rcases escape_cases c with ⟨code, hcode, htakes⟩ | ⟨hplain, hquote, hslash, hblank⟩
  · rw [hcode]
    simp only [List.cons_append, List.append_assoc, pure_bind, StateT.run_bind, StateT.run_set]
    rw [htakes]
    exact h rest
  · rw [hplain]
    simp only [List.cons_append, List.nil_append, pure_bind, if_neg (Nat.not_lt.mpr hblank), StateT.run_bind,
      StateT.run_set]
    exact h rest

/-- The contents of a text are read up to its closing quote. -/
theorem takes_quoted (cs acc : List Char) {fuel : Nat} (hfuel : cs.length < fuel) :
    (quoted false fuel acc).Takes (cs.flatMap escape ++ ['"']) (String.ofList (acc.reverse ++ cs)) := by
  induction cs generalizing acc fuel with
  | nil =>
    obtain ⟨fuel, rfl⟩ := Nat.exists_eq_add_one_of_ne_zero (Nat.ne_zero_of_lt hfuel)
    intro rest
    rw [List.append_nil]
    rfl
  | cons c cs ih =>
    obtain ⟨fuel, rfl⟩ := Nat.exists_eq_add_one_of_ne_zero (Nat.ne_zero_of_lt hfuel)
    have hrest := ih (c :: acc) (Nat.lt_of_succ_lt_succ hfuel)
    rw [List.flatMap_cons, List.append_assoc]
    refine takes_quoted_cons ?_
    simpa using hrest

theorem length_le_flatMap_escape (cs : List Char) : cs.length ≤ (cs.flatMap escape).length := by
  induction cs with
  | nil => simp
  | cons c cs ih =>
    have hone : 1 ≤ (escape c).length := by
      rcases escape_cases c with ⟨code, hcode, -⟩ | ⟨hplain, -⟩
      · rw [hcode]
        simp
      · rw [hplain]
        simp
    rw [List.flatMap_cons, List.length_append, List.length_cons]
    omega

theorem toList_quote (s : String) : (quote s).toList = '"' :: (s.toList.flatMap escape ++ ['"']) := by
  simp [quote]

/-- A text is read back as it was written. -/
theorem takes_stringBody (s : String) : stringBody.Takes (quote s).toList s := by
  intro rest
  rw [toList_quote]
  have hlength := length_le_flatMap_escape s.toList
  have hfuel : s.toList.length < (s.toList.flatMap escape ++ ['"'] ++ rest).length + 1 := by
    rw [List.length_append, List.length_append]
    omega
  have h := takes_quoted s.toList [] hfuel rest
  simpa [stringBody, advance] using h

/-! ## Objects -/

theorem run_peek_bind {c : Char} (hc : isSpace c = false) (f : Option Char → Reader α) (rest : List Char) :
    StateT.run (peek >>= f) (c :: rest) = StateT.run (f (some c)) (c :: rest) := by
  have hpeek : StateT.run peek (c :: rest) = .ok (some c, c :: rest) := by
    rw [peek, StateT.run_bind, StateT.run_modify, pure_bind]
    simp only [List.dropWhile_cons_of_neg (Bool.not_eq_true _ ▸ hc)]
    rfl
  rw [StateT.run_bind, hpeek]
  rfl

theorem run_advance_bind (f : Unit → Reader α) (c : Char) (rest : List Char) :
    StateT.run (advance >>= f) (c :: rest) = StateT.run (f ()) rest := rfl

theorem takes_string (s : String) : string.Takes (quote s).toList s := by
  intro rest
  have hbody := takes_stringBody s rest
  rw [toList_quote, List.cons_append] at hbody ⊢
  rw [string, run_peek_bind (by decide)]
  exact hbody

theorem takes_colon : colon.Takes [':'] () := by
  intro rest
  rw [colon, List.cons_append, run_peek_bind (by decide)]
  rfl

/-- The value of a member stands behind a colon. -/
theorem TakesMember.behind_colon (hr : r.TakesMember front a) :
    (colon >>= fun _ => r).TakesMember (':' :: front) a :=
  takes_colon.bind_member (f := fun _ => r) hr

/-- The text of the members of an object; all but the first follow a comma. -/
def members : Bool → List (String × List Char) → List Char
  | _, [] => []
  | first, m :: rest =>
    (if first then [] else [',']) ++ (quote m.1).toList ++ ':' :: m.2 ++ members false rest

/-- Whether reading the values of members one after the other leads from one state to another. -/
inductive Follows {σ : Type} (step : String → σ → Reader σ) : List (String × List Char) → σ → σ → Prop
  | nil (s : σ) : Follows step [] s s
  | cons {m : String × List Char} {ms : List (String × List Char)} {s t u : σ}
      (h : (step m.1 s).TakesMember (':' :: m.2) t) (rest : Follows step ms t u) : Follows step (m :: ms) s u

theorem takes_fieldName? (first : Bool) (name : String) :
    (fieldName? stringBody first).Takes ((if first then [] else [',']) ++ (quote name).toList) (some name) := by
  have hbody : (some <$> stringBody).Takes (quote name).toList (some name) := by
    intro rest
    rw [StateT.run_map, takes_stringBody name rest]
    rfl
  intro rest
  have hrest := hbody rest
  rw [toList_quote, List.cons_append] at hrest
  rw [fieldName?, toList_quote]
  cases first with
  | true =>
    rw [if_pos rfl, List.nil_append, List.cons_append, run_peek_bind (by decide)]
    exact hrest
  | false =>
    rw [if_neg Bool.false_ne_true, List.append_assoc, List.cons_append, run_peek_bind (by decide)]
    rw [List.nil_append, List.cons_append]
    show StateT.run (advance >>= fun _ => peek >>= _) _ = _
    rw [run_advance_bind, run_peek_bind (by decide)]
    exact hrest

theorem endsMember_members (ms : List (String × List Char)) (rest : List Char) :
    EndsMember (members false ms ++ '\x7d' :: rest) := by
  cases ms with
  | nil => exact .inr rfl
  | cons m ms => exact .inl rfl

theorem Follows.append {σ : Type} {step : String → σ → Reader σ} {ms ns : List (String × List Char)} {s t u : σ}
    (h : Follows step ms s t) (hrest : Follows step ns t u) : Follows step (ms ++ ns) s u := by
  induction h with
  | nil => exact hrest
  | cons hm _ ih => exact .cons hm (ih hrest)

theorem run_fields {σ : Type} {step : String → σ → Reader σ} {ms : List (String × List Char)} {s u : σ}
    (h : Follows step ms s u) (first : Bool) {fuel : Nat} (hfuel : ms.length < fuel) (rest : List Char) :
    StateT.run (fields stringBody step fuel first s) (members first ms ++ '\x7d' :: rest) =
      .ok (u, '\x7d' :: rest) := by
  induction h generalizing first fuel with
  | nil s =>
    obtain ⟨fuel, rfl⟩ := Nat.exists_eq_add_one_of_ne_zero (Nat.ne_zero_of_lt hfuel)
    rfl
  | @cons m ms s t u hm _ ih =>
    obtain ⟨fuel, rfl⟩ := Nat.exists_eq_add_one_of_ne_zero (Nat.ne_zero_of_lt hfuel)
    have hnext := ih false (Nat.lt_of_succ_lt_succ hfuel)
    rw [fields, members, StateT.run_bind]
    simp only [List.append_assoc, List.cons_append]
    rw [← List.append_assoc, takes_fieldName?]
    have hvalue := hm (members false ms ++ '\x7d' :: rest) (endsMember_members ms rest)
    rw [List.cons_append] at hvalue
    show (StateT.run (step m.1 s) _ >>= fun x => StateT.run (fields stringBody step fuel false x.1) x.2) = _
    rw [hvalue]
    exact hnext

/-! ## Maps from texts to texts -/

/-- The members of an object of texts are as many entries. -/
theorem follows_stringMap (m done : List (String × String)) (h : ((done ++ m).map (·.1)).Nodup) :
    Follows (fun name acc => do
      colon
      return acc.filter (·.1 != name) ++ [(name, ← string)])
      (m.map fun e => (e.1, (quote e.2).toList)) done (done ++ m) := by
  induction m generalizing done with
  | nil => simpa using Follows.nil done
  | cons e rest ih =>
    have hkeep : done.filter (·.1 != e.1) = done := by
      rw [List.filter_eq_self]
      intro x hx
      rw [List.map_append, List.map_cons, List.nodup_append] at h
      simpa using h.2.2 x.1 (List.mem_map_of_mem hx) e.1 List.mem_cons_self
    have hrest := ih (done ++ [e]) (by simpa using h)
    rw [List.append_assoc, List.singleton_append] at hrest
    have hvalue : (string >>= fun s => pure (done.filter (·.1 != e.1) ++ [(e.1, s)]) :
        Reader (List (String × String))).Takes (quote e.2).toList (done ++ [e]) := by
      rw [hkeep]
      exact List.append_nil (quote e.2).toList ▸ (takes_string e.2).bind (takes_pure _)
    exact .cons hvalue.member.behind_colon hrest

end Reader

theorem compact_string (s : String) : compact (.string s) = quote s := by rw [compact]

theorem compact_object (fields : List (String × Json)) :
    compact (.object fields) =
      "\x7b" ++ ",".intercalate (fields.map fun f => quote f.1 ++ ":" ++ compact f.2) ++ "\x7d" := by
  have hfields : (fields.attach.map fun f => quote f.1.1 ++ ":" ++ compact f.1.2) =
      fields.map fun f => quote f.1 ++ ":" ++ compact f.2 :=
    List.attach_map_val (l := fields) (f := fun f => quote f.1 ++ ":" ++ compact f.2)
  rw [compact, ← hfields]

theorem members_eq_intercalate (ms : List (String × List Char)) :
    Reader.members true ms =
      [','].intercalate (ms.map fun m => (quote m.1).toList ++ ':' :: m.2) := by
  induction ms with
  | nil => rfl
  | cons m rest ih =>
    cases rest with
    | nil => simp [Reader.members]
    | cons next rest =>
      rw [List.map_cons] at ih ⊢
      rw [List.map_cons, List.intercalate_cons_cons, ← ih]
      simp [Reader.members]

/-- The characters of an object: those of its members in braces. -/
theorem toList_compact_object (fields : List (String × Json)) :
    (compact (.object fields)).toList =
      '\x7b' :: (Reader.members true (fields.map fun f => (f.1, (compact f.2).toList)) ++ ['\x7d']) := by
  have hentry : String.toList ∘ (fun f : String × Json => quote f.1 ++ ":" ++ compact f.2) =
      (fun f : String × List Char => (quote f.1).toList ++ ':' :: f.2) ∘ fun f => (f.1, (compact f.2).toList) :=
    funext fun f => by simp
  rw [compact_object, members_eq_intercalate, List.map_map, ← hentry]
  simp [String.toList_intercalate]

/-- The text of an object of texts. -/
theorem toList_compact_texts (m : List (String × String)) :
    (compact (.object (m.map fun e => (e.1, .string e.2)))).toList =
      '\x7b' :: (Reader.members true (m.map fun e => (e.1, (quote e.2).toList)) ++ ['\x7d']) := by
  have htext : (fun f : String × Json => (f.1, (compact f.2).toList)) ∘
      (fun e : String × String => (e.1, .string e.2)) = fun e => (e.1, (quote e.2).toList) :=
    funext fun e => by simp [compact_string]
  rw [toList_compact_object, List.map_map, htext]

namespace Reader

variable {α : Type} {r : Reader α} {a : α}

theorem length_le_members (first : Bool) (ms : List (String × List Char)) :
    ms.length ≤ (members first ms).length := by
  induction ms generalizing first with
  | nil => simp
  | cons m rest ih =>
    have hrest := ih false
    simp only [members, List.length_cons, List.length_append]
    omega

/-- The members of an object are read, and its end is left in place. -/
theorem run_fields_object {σ : Type} {step : String → σ → Reader σ} {entries : List (String × Json)} {s u : σ}
    (h : Follows step (entries.map fun f => (f.1, (compact f.2).toList)) s u) (rest : List Char)
    {g : σ → Reader α} :
    StateT.run (advance >>= fun _ => get >>= fun cs => fields stringBody step (cs.length + 1) true s >>= g)
      ((compact (.object entries)).toList ++ rest) = StateT.run (g u) ('\x7d' :: rest) := by
  have hfuel : (entries.map fun f => (f.1, (compact f.2).toList)).length <
      (members true (entries.map fun f => (f.1, (compact f.2).toList)) ++ '\x7d' :: rest).length + 1 := by
    have hlength := length_le_members true (entries.map fun f => (f.1, (compact f.2).toList))
    rw [List.length_append]
    omega
  have hfields := run_fields h true hfuel rest
  rw [toList_compact_object, List.cons_append, List.append_assoc, List.singleton_append, run_advance_bind,
    StateT.run_bind, StateT.run_get, pure_bind, StateT.run_bind, hfields]
  rfl

/-- An object of texts is read back as it was written. -/
theorem takes_stringMap {m : List (String × String)} (h : (m.map (·.1)).Nodup) :
    stringMap.Takes (compact (.object (m.map fun e => (e.1, .string e.2)))).toList m := by
  intro rest
  have htexts : (m.map fun e => (e.1, (quote e.2).toList)) =
      (m.map fun e => (e.1, Json.string e.2)).map fun f => (f.1, (compact f.2).toList) := by
    simp [compact_string]
  have hfollows := htexts ▸ follows_stringMap m [] h
  have hfields := run_fields_object hfollows rest (g := fun entries => do advance; return entries)
  rw [stringMap, toList_compact_object, List.cons_append, run_peek_bind (by decide)]
  rw [toList_compact_object, List.cons_append] at hfields
  exact hfields

/-- A text that a reader takes as a whole is read. -/
theorem Takes.run {s : String} (h : r.Takes s.toList a) : r.run s = .ok a := by
  have hall := h []
  rw [List.append_nil] at hall
  rw [Reader.run, hall]
  rfl

theorem run_stringMap {m : List (String × String)} (h : (m.map (·.1)).Nodup) :
    stringMap.run (compact (.object (m.map fun e => (e.1, .string e.2)))) = .ok m := (takes_stringMap h).run

end Reader

end Depot.Json

namespace Depot.Metadata

/-- Attributes are read back, in whatever order they were listed. -/
theorem ofText_compact {m : Metadata} (h : m.Sorted) (order : Order) :
    ofText (toJson (order.list m)).compact = m := by
  have hnodup : ((order.list m).map (·.1)).Nodup := ((order.perm m).map _).nodup_iff.mpr h.nodup_keys
  rw [ofText, toJson, Json.Reader.run_stringMap hnodup]
  exact h.ofList_of_perm (order.perm m)

/-- The text of attributes tells how they were listed. -/
theorem compact_eq_compact_iff {m : Metadata} (h : m.Sorted) {order other : Order} :
    (toJson (order.list m)).compact = (toJson (other.list m)).compact ↔ order.list m = other.list m := by
  refine ⟨fun heq => ?_, congrArg fun l => (toJson l).compact⟩
  have hread (order : Order) : Json.Reader.stringMap.run (toJson (order.list m)).compact = .ok (order.list m) :=
    Json.Reader.run_stringMap (((order.perm m).map _).nodup_iff.mpr h.nodup_keys)
  exact Except.ok.inj ((hread order).symm.trans (heq ▸ hread other))

/-- What is read of any text is in order. -/
theorem sorted_ofText (s : String) : (ofText s).Sorted := by
  rw [ofText]
  split
  · exact SortedMap.sorted_ofList _
  · exact List.Pairwise.nil

end Depot.Metadata
