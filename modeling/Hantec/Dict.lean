/-!
# Insertion-ordered dictionaries

A dictionary maps texts to values and keeps its keys in the order in which they
were first put. Putting a value under a key that is there keeps the place of the key.
-/

namespace Hantec

/-- Replaces the value of the first entry with key `k`, or adds an entry at the end. -/
def putEntry {α : Type} (k : String) (v : α) : List (String × α) → List (String × α)
  | [] => [(k, v)]
  | e :: es => if e.1 = k then (k, v) :: es else e :: putEntry k v es

theorem map_fst_putEntry {α : Type} (k : String) (v : α) (es : List (String × α)) :
    (putEntry k v es).map Prod.fst =
      if k ∈ es.map Prod.fst then es.map Prod.fst else es.map Prod.fst ++ [k] := by
  induction es with
  | nil => simp [putEntry]
  | cons e es ih =>
    by_cases h : e.1 = k
    · simp [putEntry, h]
    · have h' : ¬ k = e.1 := fun hk => h hk.symm
      simp only [putEntry, h, if_false, List.map_cons, ih, List.mem_cons, h', false_or]
      split <;> simp

theorem nodup_putEntry {α : Type} {es : List (String × α)} (k : String) (v : α)
    (h : (es.map Prod.fst).Nodup) : ((putEntry k v es).map Prod.fst).Nodup := by
  rw [map_fst_putEntry]
  split
  · exact h
  · rename_i hk
    rw [List.nodup_append]
    refine ⟨h, by simp, ?_⟩
    intro a ha b hb
    simp only [List.mem_singleton] at hb
    rintro rfl
    exact hk (hb ▸ ha)

theorem lookup_putEntry {α : Type} (es : List (String × α)) (k x : String) (v : α) :
    (putEntry k v es).lookup x = if x = k then some v else es.lookup x := by
  induction es with
  | nil => grind [putEntry]
  | cons e es ih => grind [putEntry]

/-- In a table without repeated keys, looking up a key finds each of its entries. -/
theorem lookup_eq_some_iff_mem {κ α : Type} [BEq κ] [LawfulBEq κ] {k : κ} {a : α}
    {table : List (κ × α)} (h : (table.map Prod.fst).Nodup) :
    table.lookup k = some a ↔ (k, a) ∈ table := by
  induction table with
  | nil => simp
  | cons entry table ih =>
    obtain ⟨k', b⟩ := entry
    simp only [List.map_cons, List.nodup_cons, List.mem_map] at h
    by_cases hk : k = k'
    · subst hk
      have hne : (k, a) ∉ table := fun hm => h.1 ⟨_, hm, rfl⟩
      simp [hne, eq_comm]
    · have hb : (k == k') = false := by simpa using hk
      simp [List.lookup_cons, hb, hk, ih h.2]

/-- Entries with distinct keys, in the order of insertion. -/
structure Dict (α : Type) where
  entries : List (String × α)
  nodup : (entries.map Prod.fst).Nodup

namespace Dict

variable {α : Type}

def empty : Dict α := ⟨[], by simp⟩

instance : Inhabited (Dict α) := ⟨empty⟩

def get? (d : Dict α) (k : String) : Option α := d.entries.lookup k

def contains (d : Dict α) (k : String) : Bool := (d.get? k).isSome

def put (d : Dict α) (k : String) (v : α) : Dict α :=
  ⟨putEntry k v d.entries, nodup_putEntry k v d.nodup⟩

theorem get?_put (d : Dict α) (k x : String) (v : α) :
    (d.put k v).get? x = if x = k then some v else d.get? x :=
  lookup_putEntry d.entries k x v

/-- Puts the entries one after another. -/
def putAll (d : Dict α) (es : List (String × α)) : Dict α :=
  es.foldl (fun d e => d.put e.1 e.2) d

def ofList (es : List (String × α)) : Dict α := empty.putAll es

def keys (d : Dict α) : List String := d.entries.map Prod.fst

def values (d : Dict α) : List α := d.entries.map Prod.snd

end Dict

end Hantec
