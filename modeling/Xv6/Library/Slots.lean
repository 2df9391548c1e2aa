import Xv6.Library.Instances

/-!
# A finite map in an array of slots

A slot is free or binds a key to a value. A new binding takes the first free slot, or a new one at the end; a binding is
removed by freeing its slot.
-/

namespace Xv6.Library.Slots
open Function (update_apply update)

variable {κ ν : Type*} {slots rest : List (Option (κ × ν))} {slot : Option (κ × ν)} {key k : κ} {v w : ν} {i j : Nat}

def put (slots : List (Option (κ × ν))) (i : Nat) (slot : Option (κ × ν)) : List (Option (κ × ν)) :=
  if i < slots.length then slots.set i slot else slots ++ [slot]

/-- The first free slot from number `i` on, or the end. -/
def firstFree : List (Option (κ × ν)) → Nat → Nat
  | [], i => i
  | none :: _, i => i
  | some _ :: rest, i => firstFree rest (i + 1)

def bind (slots : List (Option (κ × ν))) (key : κ) (v : ν) :
    List (Option (κ × ν)) := put slots (firstFree slots 0) (some (key, v))

def keys (slots : List (Option (κ × ν))) : List κ := slots.reduceOption.map Prod.fst

def Distinct (slots : List (Option (κ × ν))) : Prop := (keys slots).Nodup

theorem put_cons (slot new : Option (κ × ν)) (rest : List (Option (κ × ν))) (i : Nat) :
    put (slot :: rest) (i + 1) new = slot :: put rest i new := by
  unfold put
  rw [List.length_cons]
  split_ifs with inside outside outside
  · rfl
  · omega
  · omega
  · rfl

theorem firstFree_succ (slots : List (Option (κ × ν))) (i : Nat) : firstFree slots (i + 1) = firstFree slots i + 1 := by
  induction slots generalizing i with
  | nil => rfl
  | cons slot _ ih =>
    cases slot with
    | none => rfl
    | some e => rw [firstFree, firstFree, ih]

theorem firstFree_le (slots : List (Option (κ × ν))) : firstFree slots 0 ≤ slots.length := by
  induction slots with
  | nil => exact Nat.le_refl _
  | cons slot _ ih =>
    cases slot with
    | none => exact Nat.zero_le _
    | some e =>
      rw [firstFree, firstFree_succ, List.length_cons]
      exact Nat.succ_le_succ ih

theorem bind_some (e : κ × ν) (rest : List (Option (κ × ν))) (key : κ) (v : ν) :
    bind (some e :: rest) key v = some e :: bind rest key v := by
  unfold bind
  rw [firstFree, firstFree_succ, put_cons]

theorem bind_none (rest : List (Option (κ × ν))) (key : κ) (v : ν) :
    bind (none :: rest) key v = some (key, v) :: rest := rfl

theorem keys_some (e : κ × ν) (rest : List (Option (κ × ν))) : keys (some e :: rest) = e.1 :: keys rest := rfl

theorem keys_none (rest : List (Option (κ × ν))) : keys (none :: rest) = keys rest := rfl

theorem mem_keys_bind : k ∈ keys (bind slots key v) ↔ k = key ∨ k ∈ keys slots := by
  induction slots with
  | nil => simp [bind, put, keys, List.reduceOption]
  | cons slot _ ih =>
    cases slot with
    | none => rw [bind_none, keys_some, keys_none, List.mem_cons]
    | some e =>
      rw [bind_some, keys_some, keys_some, List.mem_cons, List.mem_cons, ih]
      tauto

theorem distinct_bind (distinct : Distinct slots) (absent : key ∉ keys slots) : Distinct (bind slots key v) := by
  unfold Distinct at distinct ⊢
  induction slots with
  | nil => exact List.nodup_singleton key
  | cons slot _ ih =>
    cases slot with
    | none =>
      rw [keys_none] at distinct absent
      rw [bind_none, keys_some]
      exact List.nodup_cons.mpr ⟨absent, distinct⟩
    | some e =>
      rw [keys_some, List.mem_cons, not_or] at absent
      rw [keys_some, List.nodup_cons] at distinct
      rw [bind_some, keys_some, List.nodup_cons, mem_keys_bind, not_or]
      exact ⟨⟨Ne.symm absent.1, distinct.1⟩, ih distinct.2 absent.2⟩

theorem mem_keys (here : slots[i]? = some (some (key, v))) : key ∈ keys slots :=
  List.mem_map.mpr ⟨(key, v), List.reduceOption_mem_iff.mpr (List.mem_of_getElem? here), rfl⟩

theorem Distinct.eq (distinct : Distinct slots) (first : slots[i]? = some (some (key, v)))
    (second : slots[j]? = some (some (key, w))) :
    i = j := by
  unfold Distinct at distinct
  induction slots generalizing i j with
  | nil => exact absurd first nofun
  | cons slot rest ih =>
    have tail : (keys rest).Nodup := by
      cases slot with
      | none => exact distinct
      | some e => exact (List.nodup_cons.mp distinct).2
    cases i with
    | zero =>
      cases j with
      | zero => rfl
      | succ j =>
        cases first
        have later : rest[j]? = some (some (key, w)) := second
        exact absurd (mem_keys later) (List.nodup_cons.mp distinct).1
    | succ i =>
      cases j with
      | zero =>
        cases second
        have later : rest[i]? = some (some (key, v)) := first
        exact absurd (mem_keys later) (List.nodup_cons.mp distinct).1
      | succ j => exact congrArg Nat.succ (ih tail first second)

section Find
variable [DecidableEq κ]

/-- The value of a key and the number of its slot, from number `i` on. -/
def find (key : κ) : List (Option (κ × ν)) → Nat → Option (ν × Nat)
  | [], _ => none
  | none :: rest, i => find key rest (i + 1)
  | some (k, v) :: rest, i => if k = key then some (v, i) else find key rest (i + 1)

def lookup (slots : List (Option (κ × ν))) (key : κ) : Option ν := (find key slots 0).map Prod.fst

def unbind (slots : List (Option (κ × ν))) (key : κ) : List (Option (κ × ν)) :=
  match find key slots 0 with
  | none => slots
  | some (_, i) => put slots i none

theorem find_cons (other : slot.map Prod.fst ≠ some key) : find key (slot :: rest) i = find key rest (i + 1) := by
  match slot with
  | none => rfl
  | some (k, v) => exact if_neg fun same => other (congrArg some same)

theorem find_succ (key : κ) (slots : List (Option (κ × ν))) (i : Nat) :
    find key slots (i + 1) = (find key slots i).map fun found => (found.1, found.2 + 1) := by
  induction slots generalizing i with
  | nil => rfl
  | cons slot _ ih =>
    match slot with
    | none => exact ih (i + 1)
    | some (k, v) =>
      rw [find, find]
      split_ifs
      · rfl
      · exact ih (i + 1)

theorem find_append (found : find key slots i = some (v, j)) : find key (slots ++ rest) i = some (v, j) := by
  induction slots generalizing i with
  | nil => exact absurd found nofun
  | cons slot _ ih =>
    by_cases here : slot.map Prod.fst = some key
    · obtain ⟨⟨k, w⟩, rfl, same⟩ := Option.map_eq_some_iff.mp here
      rw [find, if_pos same] at found
      rw [List.cons_append, find, if_pos same, found]
    · rw [find_cons here] at found
      rw [List.cons_append, find_cons here, ih found]

theorem lookup_none (rest : List (Option (κ × ν))) (key : κ) : lookup (none :: rest) key = lookup rest key := by
  unfold lookup
  rw [find, find_succ, Option.map_map]
  rfl

theorem lookup_some (k : κ) (v : ν) (rest : List (Option (κ × ν))) (key : κ) :
    lookup (some (k, v) :: rest) key = if k = key then some v else lookup rest key := by
  unfold lookup
  rw [find]
  split_ifs
  · rfl
  · rw [find_succ, Option.map_map]
    rfl

theorem find_some (found : find key slots 0 = some (v, i)) : slots[i]? = some (some (key, v)) := by
  induction slots generalizing i with
  | nil => exact absurd found nofun
  | cons slot _ ih =>
    by_cases here : slot.map Prod.fst = some key
    · obtain ⟨⟨k, w⟩, rfl, same⟩ := Option.map_eq_some_iff.mp here
      rw [find, if_pos same] at found
      obtain ⟨rfl, rfl⟩ := Prod.mk.inj (Option.some.inj found)
      exact congrArg (fun k => some (some (k, w))) same
    rw [find_cons here, find_succ, Option.map_eq_some_iff] at found
    obtain ⟨⟨w, j⟩, later, same⟩ := found
    cases same
    exact ih later

theorem find_lt (found : find key slots 0 = some (v, i)) :
    i < slots.length := (List.getElem?_eq_some_iff.mp (find_some found)).1

theorem unbind_none (rest : List (Option (κ × ν))) (key : κ) : unbind (none :: rest) key = none :: unbind rest key := by
  unfold unbind
  rw [find, find_succ]
  cases find key rest 0 with
  | none => rfl
  | some => exact put_cons ..

theorem unbind_some (k : κ) (v : ν) (rest : List (Option (κ × ν))) (key : κ) :
    unbind (some (k, v) :: rest) key = if k = key then none :: rest else some (k, v) :: unbind rest key := by
  unfold unbind
  rw [find]
  split_ifs
  · rfl
  rw [find_succ]
  cases find key rest 0 with
  | none => rfl
  | some => exact put_cons ..

theorem lookup_eq_none : lookup slots key = none ↔ key ∉ keys slots := by
  induction slots with
  | nil => exact ⟨fun _ => List.not_mem_nil, fun _ => rfl⟩
  | cons slot _ ih =>
    match slot with
    | none => rw [lookup_none, keys_none, ih]
    | some (k, v) =>
      rw [lookup_some, keys_some, List.mem_cons, not_or, ← ih]
      split_ifs with same
      · exact ⟨nofun, fun ⟨ne, _⟩ => absurd same.symm ne⟩
      · exact ⟨fun absent => ⟨Ne.symm same, absent⟩, And.right⟩

theorem lookup_bind (absent : lookup slots key = none) :
    lookup (bind slots key v) = update (lookup slots) key (some v) := by
  funext k
  induction slots with
  | nil =>
    change lookup [some (key, v)] k = _
    rw [lookup_some, update_apply]
    exact if_congr eq_comm rfl rfl
  | cons slot _ ih =>
    match slot with
    | none =>
      rw [bind_none, lookup_some, update_apply, lookup_none]
      exact if_congr eq_comm rfl rfl
    | some (k', w) =>
      rw [lookup_some] at absent
      split_ifs at absent with same
      rw [bind_some, lookup_some, ih absent, update_apply, update_apply, lookup_some]
      split_ifs with here there
      · exact absurd (here.trans there) same
      · rfl
      · rfl
      · rfl

theorem lookup_unbind (distinct : Distinct slots) : lookup (unbind slots key) = update (lookup slots) key none := by
  funext k
  unfold Distinct at distinct
  induction slots with
  | nil =>
    rw [update_apply]
    exact (ite_self none).symm
  | cons slot _ ih =>
    match slot with
    | none =>
      rw [unbind_none, lookup_none, ih distinct, update_apply, update_apply, lookup_none]
    | some (k', w) =>
      rw [keys_some, List.nodup_cons] at distinct
      rw [unbind_some, update_apply, lookup_some]
      by_cases same : k' = key
      · rw [if_pos same, lookup_none, ← same]
        by_cases here : k = k'
        · rw [if_pos here, here]
          exact lookup_eq_none.mpr distinct.1
        · rw [if_neg here, if_neg (Ne.symm here)]
      rw [if_neg same, lookup_some, ih distinct.2, update_apply]
      split_ifs with here there
      · exact absurd (here.trans there) same
      · rfl
      · rfl
      · rfl

theorem keys_unbind_sublist (slots : List (Option (κ × ν))) (key : κ) :
    (keys (unbind slots key)).Sublist (keys slots) := by
  induction slots with
  | nil => exact List.Sublist.refl _
  | cons slot _ ih =>
    match slot with
    | none =>
      rw [unbind_none, keys_none, keys_none]
      exact ih
    | some (k, v) =>
      rw [unbind_some, keys_some]
      split_ifs
      · exact List.sublist_cons_self ..
      · exact ih.cons_cons k

theorem distinct_unbind (distinct : Distinct slots) :
    Distinct (unbind slots key) := distinct.sublist (keys_unbind_sublist slots key)

end Find

end Xv6.Library.Slots
