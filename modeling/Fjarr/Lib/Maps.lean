/-
Fjarr.Lib.Maps — ordered maps read by key equality, and lists with keys.

The library's lookup lemmas speak of the comparison's result; the proofs
about the components compare keys with `=`. These are the two forms
joined, for any key type with a lawful order. In a list whose elements have
distinct keys, if any, a key finds its element. Options are related where
both hold something, or neither.
-/
import Mathlib

namespace Fjarr.Lib.Maps

open List Option

/-- Where no two elements have one key, the one with a key splits the list. -/
theorem split_of_nodup_filterMap {α β : Type} {g : α → Option β} {l : List α}
    (h : (l.filterMap g).Nodup) {a : α} (ha : a ∈ l) {c : β} (hga : g a = some c) :
    ∃ s t, l = s ++ a :: t ∧ (∀ x ∈ s, g x ≠ some c) ∧ ∀ x ∈ t, g x ≠ some c := by
  obtain ⟨s, t, rfl⟩ := append_of_mem ha
  rw [filterMap_append, filterMap_cons_some hga, nodup_middle, nodup_cons,
    mem_append] at h
  refine ⟨s, t, rfl, fun x hx hgx => ?_, fun x hx hgx => ?_⟩
  · exact h.1 (.inl (mem_filterMap.mpr ⟨x, hx, hgx⟩))
  · exact h.1 (.inr (mem_filterMap.mpr ⟨x, hx, hgx⟩))

theorem eq_of_nodup_filterMap {α β : Type} {g : α → Option β} {l : List α}
    (h : (l.filterMap g).Nodup) {a b : α} (ha : a ∈ l) (hb : b ∈ l) {c : β}
    (hga : g a = some c) (hgb : g b = some c) : b = a := by
  obtain ⟨s, t, rfl, hs, ht⟩ := split_of_nodup_filterMap h ha hga
  rw [mem_append, mem_cons] at hb
  obtain hb | hb | hb := hb
  · exact absurd hgb (hs b hb)
  · exact hb
  · exact absurd hgb (ht b hb)

section

variable {α β γ : Type} {R : α → β → Prop} {o : Option α} {o' : Option β} (h : Option.Rel R o o')
include h

theorem rel_some_right {b : β} (hb : o' = some b) : ∃ a, o = some a ∧ R a b := by
  subst hb
  cases h with
  | some hab => exact ⟨_, rfl, hab⟩

theorem rel_some_left {a : α} (ha : o = some a) : ∃ b, o' = some b ∧ R a b := by
  subst ha
  cases h with
  | some hab => exact ⟨_, rfl, hab⟩

theorem rel_trans {S : β → γ → Prop} {T : α → γ → Prop} {o'' : Option γ}
    (h' : Option.Rel S o' o'') (htrans : ∀ {a b c}, R a b → S b c → T a c) :
    Option.Rel T o o'' := by
  cases h with
  | some hab =>
    cases h' with
    | some hbc => exact .some (htrans hab hbc)
  | none =>
    cases h'
    exact .none

end

variable {κ ν : Type} [Ord κ] [Std.TransOrd κ] [Std.LawfulEqOrd κ] [DecidableEq κ]

theorem get?_insert (m : Std.ExtTreeMap κ ν) (k k' : κ) (v : ν) :
    (m.insert k v)[k']? = if k' = k then some v else m[k']? := by
  rw [Std.ExtTreeMap.getElem?_insert]
  by_cases h : k' = k
  · simp [h]
  · simp [h, Ne.symm h]

theorem get?_erase (m : Std.ExtTreeMap κ ν) (k k' : κ) :
    (m.erase k)[k']? = if k' = k then none else m[k']? := by
  rw [Std.ExtTreeMap.getElem?_erase]
  by_cases h : k' = k
  · simp [h]
  · simp [h, Ne.symm h]

theorem of_get?_insert {m : Std.ExtTreeMap κ ν} {k k' : κ} {v v' : ν}
    (h : (m.insert k v)[k']? = some v') : k' = k ∧ v' = v ∨ k' ≠ k ∧ m[k']? = some v' := by
  rw [get?_insert] at h
  split at h
  · exact .inl ⟨by assumption, (some.inj h).symm⟩
  · exact .inr ⟨by assumption, h⟩

theorem of_get?_erase {m : Std.ExtTreeMap κ ν} {k k' : κ} {v : ν}
    (h : (m.erase k)[k']? = some v) : k' ≠ k ∧ m[k']? = some v := by
  rw [get?_erase] at h
  exact ite_none_left_eq_some.mp h

theorem erase_insert_self (m : Std.ExtTreeMap κ ν) (k : κ) (v : ν) :
    (m.insert k v).erase k = m.erase k := by
  refine Std.ExtTreeMap.ext_getElem? fun k' => ?_
  rw [get?_erase, get?_erase, get?_insert]
  split <;> rfl

omit [Std.LawfulEqOrd κ] [DecidableEq κ] in
theorem contains_eq_false (m : Std.ExtTreeMap κ ν) (k : κ) :
    m.contains k = false ↔ m[k]? = none := by
  rw [Std.ExtTreeMap.contains_eq_isSome_getElem?, isSome_eq_false_iff,
    isNone_iff_eq_none]

omit [DecidableEq κ] in
theorem get?_filter (m : Std.ExtTreeMap κ ν) (f : κ → ν → Bool) (k : κ) :
    (m.filter f)[k]? = (m[k]?).filter (f k) := by
  refine ext fun v => ?_
  rw [← Std.ExtTreeMap.mem_toList_iff_getElem?_eq_some, Std.ExtTreeMap.toList_filter,
    mem_filter, Std.ExtTreeMap.mem_toList_iff_getElem?_eq_some, filter_eq_some_iff]

theorem toList_perm_of_get? {m : Std.ExtTreeMap κ ν} {k : κ} {v : ν} (h : m[k]? = some v) :
    m.toList.Perm ((k, v) :: (m.erase k).toList) := by
  have hnodup : ∀ m : Std.ExtTreeMap κ ν, m.toList.Nodup := by
    intro m
    refine Std.ExtTreeMap.distinct_keys_toList.imp fun hne heq => hne ?_
    rw [heq]
    exact Std.ReflCmp.compare_self
  have hmem : ∀ (m : Std.ExtTreeMap κ ν) (k : κ) (v : ν), (k, v) ∈ m.toList ↔ m[k]? = some v :=
    fun _ _ _ => Std.ExtTreeMap.mem_toList_iff_getElem?_eq_some
  refine (perm_ext_iff_of_nodup (hnodup m) (nodup_cons.mpr ⟨?_, hnodup _⟩)).mpr ?_
  · rw [hmem, get?_erase, if_pos rfl]
    simp
  rintro ⟨k', v'⟩
  rw [mem_cons, hmem, hmem, get?_erase, Prod.mk.injEq]
  by_cases hk : k' = k
  · rw [if_pos hk, hk, h, some.injEq]
    simp [eq_comm]
  · simp [hk]

theorem toList_insert_perm (m : Std.ExtTreeMap κ ν) (k : κ) (v : ν) :
    (m.insert k v).toList.Perm ((k, v) :: (m.erase k).toList) := by
  rw [← erase_insert_self m k v]
  exact toList_perm_of_get? (by rw [get?_insert, if_pos rfl])

theorem toList_filter_key (m : Std.ExtTreeMap κ ν) (k : κ) :
    m.toList.filter (fun e => e.1 = k) = (m[k]?).toList.map fun v => (k, v) := by
  have hnone : ∀ m : Std.ExtTreeMap κ ν, m[k]? = none →
      m.toList.filter (fun e => e.1 = k) = [] := by
    intro m hm
    refine filter_eq_nil_iff.mpr ?_
    rintro ⟨k', v⟩ hmem hk
    obtain rfl := of_decide_eq_true hk
    rw [Std.ExtTreeMap.mem_toList_iff_getElem?_eq_some, hm] at hmem
    cases hmem
  cases hk : m[k]? with
  | none => exact hnone m hk
  | some v =>
    refine perm_singleton.mp ?_
    refine ((toList_perm_of_get? hk).filter _).trans ?_
    rw [filter_cons_of_pos (by simp), hnone _ (by rw [get?_erase, if_pos rfl])]

end Fjarr.Lib.Maps
