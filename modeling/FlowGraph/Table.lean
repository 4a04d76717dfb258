/-
  Tables ordered by key.

  A table holds at most one entry a key and lists its
  entries by ascending key, whatever the order in which they
  were put in.

  Key definitions include:
    * `FlowGraph.Key`
    * `FlowGraph.Table`
    * `FlowGraph.Table.get?`
    * `FlowGraph.Table.insert`
    * `FlowGraph.Table.erase`
    * `FlowGraph.Table.adjust`

  Key theorems include:
    * `FlowGraph.Table.get?_eq_some_iff`
    * `FlowGraph.Table.get?_insert_self`
    * `FlowGraph.Table.get?_insert_of_ne`
    * `FlowGraph.Table.get?_erase_self`
    * `FlowGraph.Table.get?_adjust_self`
-/

------------------------------------------------------------
-- Keys
------------------------------------------------------------

namespace FlowGraph

/-
  A strict order that tells any two different keys apart.
-/
class Key (κ : Type) where
  before : κ → κ → Bool
  irrefl : ∀ a, before a a = false
  trans :
    ∀ {a b c}, before a b → before b c → before a c
  eq_of_not_before :
    ∀ {a b}, before a b = false → before b a = false → a = b

instance : Key Nat where
  before a b := decide (a < b)
  irrefl a := by simp
  trans hab hbc := by
    simp only [decide_eq_true_eq] at *
    omega
  eq_of_not_before hab hba := by
    simp only [decide_eq_false_iff_not] at *
    omega

end FlowGraph

------------------------------------------------------------
-- Entry Lists
------------------------------------------------------------

namespace FlowGraph

namespace Entries

variable {κ α : Type} [Key κ]

/- The keys of a list of entries ascend. -/
def Ascending
    (entries : List (κ × α)) :
    Prop :=
  entries.Pairwise fun a b => Key.before a.1 b.1

/- Whether an entry belongs to a key. -/
def hasKey
    (k : κ)
    (entry : κ × α) :
    Bool :=
  !Key.before k entry.1 && !Key.before entry.1 k

/-
  Put an entry in its place.  An entry with the same key is
  replaced.
-/
def insert
    (k : κ)
    (v : α) :
    List (κ × α) → List (κ × α)
  | [] => [(k, v)]
  | e :: rest =>
      if Key.before k e.1 then
        (k, v) :: e :: rest
      else if Key.before e.1 k then
        e :: insert k v rest
      else
        (k, v) :: rest

/- Every entry after an insertion is new or was there. -/
theorem mem_insert
    {k : κ}
    {v : α}
    {e : κ × α}
    {entries : List (κ × α)}
    (h : e ∈ insert k v entries) :
    e = (k, v) ∨ e ∈ entries := by
  induction entries with
  | nil =>
      simpa [insert] using h
  | cons d rest ih =>
      unfold insert at h
      split at h
      · simpa using h
      · split at h
        · rcases List.mem_cons.mp h with h | h
          · exact Or.inr (by simp [h])
          · rcases ih h with h | h
            · exact Or.inl h
            · exact Or.inr (by simp [h])
        · rcases List.mem_cons.mp h with h | h
          · exact Or.inl h
          · exact Or.inr (by simp [h])

/- Insertion keeps the keys ascending. -/
theorem ascending_insert
    (k : κ)
    (v : α)
    {entries : List (κ × α)}
    (h : Ascending entries) :
    Ascending (insert k v entries) := by
  induction entries with
  | nil =>
      simp [insert, Ascending]
  | cons e rest ih =>
      obtain ⟨hHead, hRest⟩ := List.pairwise_cons.mp h
      unfold insert
      split
      · rename_i hBefore
        refine List.pairwise_cons.mpr ⟨?_, h⟩
        intro d hd
        rcases List.mem_cons.mp hd with rfl | hd
        · exact hBefore
        · exact Key.trans hBefore (hHead d hd)
      · rename_i hNot
        split
        · rename_i hAfter
          refine List.pairwise_cons.mpr ⟨?_, ih hRest⟩
          intro d hd
          rcases mem_insert hd with rfl | hd
          · exact hAfter
          · exact hHead d hd
        · rename_i hNotAfter
          have hEq : k = e.1 :=
            Key.eq_of_not_before
              (by simpa using hNot)
              (by simpa using hNotAfter)
          refine List.pairwise_cons.mpr ⟨?_, hRest⟩
          intro d hd
          simpa [hEq] using hHead d hd

/- Change the values of a list of entries. -/
def mapValues
    (f : κ → α → α)
    (entries : List (κ × α)) :
    List (κ × α) :=
  entries.map fun e => (e.1, f e.1 e.2)

/- Changing values keeps the keys ascending. -/
theorem ascending_mapValues
    (f : κ → α → α)
    {entries : List (κ × α)}
    (h : Ascending entries) :
    Ascending (mapValues f entries) :=
  List.pairwise_map.mpr h

end Entries

end FlowGraph

------------------------------------------------------------
-- Tables
------------------------------------------------------------

namespace FlowGraph

/- A finite map whose entries are listed by ascending key. -/
structure Table (κ α : Type) [Key κ] where
  entries : List (κ × α)
  ascending : Entries.Ascending entries
  deriving DecidableEq

namespace Table

variable {κ α : Type} [Key κ]

/- The table without entries. -/
def empty : Table κ α :=
  ⟨[], List.Pairwise.nil⟩

/- The value of a key. -/
def get?
    (t : Table κ α)
    (k : κ) :
    Option α :=
  (t.entries.find? (Entries.hasKey k)).map Prod.snd

/- Whether a key has a value. -/
def contains
    (t : Table κ α)
    (k : κ) :
    Bool :=
  (t.get? k).isSome

/- Give a key a value, replacing an earlier one. -/
def insert
    (t : Table κ α)
    (k : κ)
    (v : α) :
    Table κ α :=
  ⟨Entries.insert k v t.entries,
    Entries.ascending_insert k v t.ascending⟩

/- Remove a key and its value. -/
def erase
    (t : Table κ α)
    (k : κ) :
    Table κ α :=
  ⟨t.entries.filter fun e => !Entries.hasKey k e,
    t.ascending.filter _⟩

/- Change the value of a key, if it has one. -/
def adjust
    (t : Table κ α)
    (k : κ)
    (f : α → α) :
    Table κ α :=
  ⟨Entries.mapValues
      (fun k' v => if Entries.hasKey k (k', v) then f v else v)
      t.entries,
    Entries.ascending_mapValues _ t.ascending⟩

/- The keys, ascending. -/
def keys
    (t : Table κ α) :
    List κ :=
  t.entries.map Prod.fst

/- The number of entries. -/
def size
    (t : Table κ α) :
    Nat :=
  t.entries.length

end Table

end FlowGraph

------------------------------------------------------------
-- Lookup In Entry Lists
------------------------------------------------------------

namespace FlowGraph

namespace Entries

variable {κ α : Type} [Key κ]

/- An entry belongs to its own key and to no other. -/
theorem hasKey_iff
    {k : κ}
    {e : κ × α} :
    hasKey k e = true ↔ e.1 = k := by
  constructor
  · intro h
    simp only [hasKey, Bool.and_eq_true, Bool.not_eq_true'] at h
    exact (Key.eq_of_not_before h.1 h.2).symm
  · intro h
    simp [hasKey, h, Key.irrefl]

/- An entry does not belong to another key. -/
theorem hasKey_eq_false
    {k : κ}
    {e : κ × α}
    (h : e.1 ≠ k) :
    hasKey k e = false := by
  rw [← Bool.not_eq_true, hasKey_iff]
  exact h

/- An ascending list has one entry a key. -/
theorem eq_of_mem
    {entries : List (κ × α)}
    (h : Ascending entries)
    {d e : κ × α}
    (hd : d ∈ entries)
    (he : e ∈ entries)
    (hKey : d.1 = e.1) :
    d = e := by
  induction entries with
  | nil =>
      exact absurd hd List.not_mem_nil
  | cons c rest ih =>
      obtain ⟨hHead, hRest⟩ := List.pairwise_cons.mp h
      have hNot : ∀ b ∈ rest, c.1 ≠ b.1 := by
        intro b hb hEq
        have hBefore := hHead b hb
        rw [hEq, Key.irrefl] at hBefore
        exact Bool.false_ne_true hBefore
      rcases List.mem_cons.mp hd with hdHead | hdRest
      · rcases List.mem_cons.mp he with heHead | heRest
        · rw [hdHead, heHead]
        · rw [hdHead] at hKey
          exact absurd hKey (hNot e heRest)
      · rcases List.mem_cons.mp he with heHead | heRest
        · rw [heHead] at hKey
          exact absurd hKey.symm (hNot d hdRest)
        · exact ih hRest hdRest heRest

/- The inserted entry is there. -/
theorem mem_insert_self
    (k : κ)
    (v : α)
    (entries : List (κ × α)) :
    (k, v) ∈ insert k v entries := by
  induction entries with
  | nil =>
      simp [insert]
  | cons e rest ih =>
      unfold insert
      split
      · simp
      · split
        · simp [ih]
        · simp

/- Insertion leaves the entries of other keys in place. -/
theorem mem_insert_of_ne
    {k : κ}
    {v : α}
    {e : κ × α}
    {entries : List (κ × α)}
    (hNe : e.1 ≠ k) :
    e ∈ insert k v entries ↔ e ∈ entries := by
  constructor
  · intro h
    rcases mem_insert h with rfl | h
    · exact absurd rfl hNe
    · exact h
  · intro h
    induction entries with
    | nil =>
        exact absurd h List.not_mem_nil
    | cons d rest ih =>
        unfold insert
        split
        · simp [List.mem_cons.mp h]
        · rename_i hNot
          split
          · rcases List.mem_cons.mp h with rfl | h
            · simp
            · simp [ih h]
          · rename_i hNotAfter
            have hEq : k = d.1 :=
              Key.eq_of_not_before
                (by simpa using hNot)
                (by simpa using hNotAfter)
            rcases List.mem_cons.mp h with rfl | h
            · exact absurd hEq.symm hNe
            · simp [h]

end Entries

end FlowGraph

------------------------------------------------------------
-- Lookup In Tables
------------------------------------------------------------

namespace FlowGraph.Table

variable {κ α : Type} [Key κ]

/- Lookup finds exactly the entries. -/
theorem get?_eq_some_iff
    {t : Table κ α}
    {k : κ}
    {v : α} :
    t.get? k = some v ↔ (k, v) ∈ t.entries := by
  unfold get?
  constructor
  · intro h
    obtain ⟨e, hFind, hValue⟩ := Option.map_eq_some_iff.mp h
    have hKey := Entries.hasKey_iff.mp (List.find?_some hFind)
    have hMem := List.mem_of_find?_eq_some hFind
    rw [← hKey, ← hValue]
    exact hMem
  · intro h
    cases hFind : t.entries.find? (Entries.hasKey k) with
    | none =>
        have hNone := List.find?_eq_none.mp hFind (k, v) h
        have hSelf : Entries.hasKey k (k, v) = true :=
          Entries.hasKey_iff.mpr rfl
        exact absurd hSelf hNone
    | some e =>
        have hKey :=
          Entries.hasKey_iff.mp (List.find?_some hFind)
        have hMem := List.mem_of_find?_eq_some hFind
        have hEq : e = (k, v) :=
          Entries.eq_of_mem t.ascending hMem h hKey
        simp [hEq]

/- Two lookups agree if the tables have the same entries. -/
theorem get?_congr
    {t u : Table κ α}
    {k : κ}
    (h : ∀ v, (k, v) ∈ t.entries ↔ (k, v) ∈ u.entries) :
    t.get? k = u.get? k := by
  apply Option.ext
  intro v
  rw [get?_eq_some_iff, get?_eq_some_iff]
  exact h v

/- The empty table has no values. -/
@[simp] theorem get?_empty
    (k : κ) :
    (empty : Table κ α).get? k = none :=
  rfl

/- The inserted value is found. -/
@[simp] theorem get?_insert_self
    (t : Table κ α)
    (k : κ)
    (v : α) :
    (t.insert k v).get? k = some v :=
  get?_eq_some_iff.mpr (Entries.mem_insert_self k v t.entries)

/- Insertion leaves other keys as they are. -/
theorem get?_insert_of_ne
    (t : Table κ α)
    {k k' : κ}
    (v : α)
    (hNe : k' ≠ k) :
    (t.insert k v).get? k' = t.get? k' :=
  get?_congr fun _ => Entries.mem_insert_of_ne hNe

/- An erased key has no value. -/
@[simp] theorem get?_erase_self
    (t : Table κ α)
    (k : κ) :
    (t.erase k).get? k = none := by
  rw [Option.eq_none_iff_forall_ne_some]
  intro v h
  have hMem := get?_eq_some_iff.mp h
  have hSelf : Entries.hasKey k (k, v) = true :=
    Entries.hasKey_iff.mpr rfl
  simp [erase, hSelf] at hMem

/- Erasing leaves other keys as they are. -/
theorem get?_erase_of_ne
    (t : Table κ α)
    {k k' : κ}
    (hNe : k' ≠ k) :
    (t.erase k).get? k' = t.get? k' := by
  apply get?_congr
  intro v
  have hKey : Entries.hasKey k (k', v) = false :=
    Entries.hasKey_eq_false hNe
  simp [erase, hKey]

/- An adjusted value is changed. -/
theorem get?_adjust_self
    (t : Table κ α)
    (k : κ)
    (f : α → α) :
    (t.adjust k f).get? k = (t.get? k).map f := by
  have hSelf : ∀ v : α, Entries.hasKey k (k, v) = true :=
    fun _ => Entries.hasKey_iff.mpr rfl
  apply Option.ext
  intro v
  rw [get?_eq_some_iff, Option.map_eq_some_iff]
  simp only [adjust, Entries.mapValues, List.mem_map,
    get?_eq_some_iff]
  constructor
  · rintro ⟨e, hMem, hEq⟩
    obtain ⟨hKey, hValue⟩ := Prod.mk.inj hEq
    subst hKey
    refine ⟨e.2, hMem, ?_⟩
    simpa [hSelf] using hValue
  · rintro ⟨w, hMem, hValue⟩
    exact ⟨(k, w), hMem, by simp [hSelf, hValue]⟩

/- Adjusting leaves other keys as they are. -/
theorem get?_adjust_of_ne
    (t : Table κ α)
    {k k' : κ}
    (f : α → α)
    (hNe : k' ≠ k) :
    (t.adjust k f).get? k' = t.get? k' := by
  apply get?_congr
  intro v
  simp only [adjust, Entries.mapValues, List.mem_map]
  constructor
  · rintro ⟨e, hMem, hEq⟩
    obtain ⟨hKey, hValue⟩ := Prod.mk.inj hEq
    subst hKey
    have hNot : Entries.hasKey k (e.1, e.2) = false :=
      Entries.hasKey_eq_false hNe
    simp only [hNot] at hValue
    simpa [← hValue] using hMem
  · intro hMem
    have hNot : Entries.hasKey k (k', v) = false :=
      Entries.hasKey_eq_false hNe
    exact ⟨(k', v), hMem, by simp [hNot]⟩

/- Adjusting changes no key. -/
@[simp] theorem keys_adjust
    (t : Table κ α)
    (k : κ)
    (f : α → α) :
    (t.adjust k f).keys = t.keys := by
  simp [keys, adjust, Entries.mapValues]

end FlowGraph.Table
