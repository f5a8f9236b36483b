/-
Fjarr.Lib.TableTree — trees of tables and values, edited at a path and put back.

`setAt` puts a value under a path, making the tables that are missing on it;
`restoreAt` puts what was there back, and prunes the tables on the path
that it leaves empty. A tree is read through `find`: what is at a path, a
table or a value. That leaves out the order of a table's entries and
whether a table is written inline.

* `find_setAt`, `find_restoreAt` — what each of the two does, at every path.
* `Undone.restoreAt` — the two together, around any editing that is itself
  undone up to hollow tables.
-/
import Mathlib

namespace Fjarr.Lib

open List Option

/-- A value, or a table of entries. -/
inductive TableTree (κ α : Type) where
  | value (a : α)
  | table (inline : Bool) (entries : List (κ × TableTree κ α))

namespace TableTree

variable {κ α : Type} [DecidableEq κ]

mutual

def decEq [DecidableEq α] : (s t : TableTree κ α) → Decidable (s = t)
  | .value a, .value b => decidable_of_iff (a = b) (by simp)
  | .value _, .table _ _ => isFalse (by simp)
  | .table _ _, .value _ => isFalse (by simp)
  | .table i es, .table j fs =>
    match decEqEntries es fs with
    | isTrue h => decidable_of_iff (i = j) (by simp [h])
    | isFalse h => isFalse (by simp [h])

def decEqEntries [DecidableEq α] :
    (es fs : List (κ × TableTree κ α)) → Decidable (es = fs)
  | [], [] => isTrue rfl
  | [], _ :: _ => isFalse (by simp)
  | _ :: _, [] => isFalse (by simp)
  | (k, s) :: es, (l, t) :: fs =>
    match decEq s t, decEqEntries es fs with
    | isTrue h, isTrue h' => decidable_of_iff (k = l) (by simp [h, h'])
    | isFalse h, _ => isFalse (by simp [h])
    | _, isFalse h => isFalse (by simp [h])

end

instance [DecidableEq α] : DecidableEq (TableTree κ α) := decEq

/-! ## Entries -/

section Entries

variable {τ : Type}

/-- The entry of a key, replaced where it is or put at the end. -/
def put : List (κ × τ) → κ → τ → List (κ × τ)
  | [], k, t => [(k, t)]
  | (k', t') :: es, k, t => if k' = k then (k, t) :: es else (k', t') :: put es k t

def drop (es : List (κ × τ)) (k : κ) : List (κ × τ) := es.filter (·.1 ≠ k)

theorem lookup_cons_eq (e : κ × τ) (es : List (κ × τ)) (k : κ) :
    (e :: es).lookup k = if k = e.1 then some e.2 else es.lookup k := by
  rw [lookup_cons]
  split
  · rename_i heq
    rw [if_pos (eq_of_beq heq)]
  · rename_i hne
    rw [if_neg (ne_of_beq_false hne)]

variable (es : List (κ × τ))

theorem lookup_put (k k' : κ) (t : τ) :
    (put es k t).lookup k' = if k' = k then some t else es.lookup k' := by
  induction es with
  | nil => rw [put, lookup_cons_eq]
  | cons e es ih =>
    obtain ⟨k₀, t₀⟩ := e
    unfold put
    split
    · rename_i hk₀
      subst hk₀
      rw [lookup_cons_eq, lookup_cons_eq]
      split_ifs <;> rfl
    rename_i hk₀
    rw [lookup_cons_eq, lookup_cons_eq, ih]
    split_ifs with h₀ h
    · exact absurd (h₀.symm.trans h) hk₀
    · rfl
    · rfl
    · rfl

theorem lookup_drop (k k' : κ) :
    (drop es k).lookup k' = if k' = k then none else es.lookup k' := by
  induction es with
  | nil => simp [drop]
  | cons e es ih =>
    obtain ⟨k₀, t₀⟩ := e
    by_cases hk₀ : k₀ = k
    · have hskip : drop ((k₀, t₀) :: es) k = drop es k := by simp [drop, hk₀]
      rw [hskip, ih, lookup_cons_eq, hk₀]
      split_ifs <;> rfl
    have hkeep : drop ((k₀, t₀) :: es) k = (k₀, t₀) :: drop es k := by simp [drop, hk₀]
    rw [hkeep, lookup_cons_eq, lookup_cons_eq, ih]
    split_ifs with h₀ h
    · exact absurd (h₀.symm.trans h) hk₀
    · rfl
    · rfl
    · rfl

theorem eq_nil_iff_lookup : es = [] ↔ ∀ k, es.lookup k = none := by
  constructor
  · rintro rfl k
    rfl
  intro h
  cases es with
  | nil => rfl
  | cons e es => exact absurd (h e.1) (by simp)

end Entries

/-! ## Reading -/

/-- What is at a path. -/
inductive Node (α : Type) where
  | table
  | value (a : α)
  deriving DecidableEq, Repr

def node : TableTree κ α → Node α
  | .value a => .value a
  | .table _ _ => .table

def child : TableTree κ α → κ → Option (TableTree κ α)
  | .value _, _ => none
  | .table _ es, k => es.lookup k

def find : TableTree κ α → List κ → Option (Node α)
  | t, [] => some t.node
  | t, k :: ks => (t.child k).bind (find · ks)

@[simp] theorem find_nil (t : TableTree κ α) : t.find [] = some t.node := by
  rw [find]

theorem find_cons (t : TableTree κ α) (k : κ) (ks : List κ) :
    t.find (k :: ks) = (t.child k).bind (find · ks) := by
  rw [find]

variable {t : TableTree κ α}

theorem find_table_of_append {p q : List κ} (hq : q ≠ [])
    (h : t.find (p ++ q) ≠ none) : t.find p = some .table := by
  induction p generalizing t with
  | nil =>
    obtain ⟨k, ks, rfl⟩ := exists_cons_of_ne_nil hq
    cases t with
    | value a => exact absurd rfl h
    | table i es => rfl
  | cons k ks ih =>
    rw [cons_append, find_cons] at h
    rw [find_cons]
    cases hc : t.child k with
    | none => exact absurd (by rw [hc]; rfl) h
    | some c =>
      rw [hc] at h
      exact ih h

def isEmptyTable : TableTree κ α → Bool
  | .table _ es => es.isEmpty
  | .value _ => false

theorem find_of_isEmptyTable (h : t.isEmptyTable = true) (k : κ)
    (ks : List κ) : t.find (k :: ks) = none := by
  cases t with
  | value a => rfl
  | table i es =>
    obtain rfl := List.isEmpty_iff.mp h
    rfl

/-- Whether this is a table written inline. -/
def inline : TableTree κ α → Bool
  | .table i _ => i
  | .value _ => false

/-- What `as_value` gives: a value, or a table written inline. -/
def asValue : TableTree κ α → Option (TableTree κ α)
  | .table false _ => none
  | t => some t

/-! ## Editing -/

/-- Puts a value under a path, and returns what was there. Tables missing on
the path are made, and inline ones made regular; a value on the path is in
the way. -/
def setAt (last : κ) (new : α) :
    List κ → TableTree κ α → Option (TableTree κ α × Option (TableTree κ α))
  | _, .value _ => none
  | [], .table i es =>
    some (.table i (put es last (.value new)), (es.lookup last).bind asValue)
  | k :: ks, .table _ es =>
    (setAt last new ks ((es.lookup k).getD (.table false []))).map fun r =>
      (.table false (put es k r.1), r.2)

/-- Puts what was there back, and prunes the tables on the path that are
left empty; those in an inline table stay. -/
def restoreAt (last : κ) (previous : Option (TableTree κ α)) :
    List κ → TableTree κ α → TableTree κ α
  | _, .value a => .value a
  | [], .table _ es =>
    .table false (match previous with
      | some t => put es last t
      | none => drop es last)
  | k :: ks, .table i es =>
    match es.lookup k with
    | none => .table i es
    | some t =>
      let t' := restoreAt last previous ks t
      if !i && t'.isEmptyTable then .table i (drop es k) else .table i (put es k t')

/-- Above a path are regular tables. -/
def Regular : List κ → TableTree κ α → Prop
  | [], _ => True
  | k :: ks, .table i es => i = false ∧ ∀ t ∈ es.lookup k, Regular ks t
  | _ :: _, .value _ => True

theorem regular_cons {k : κ} {ks : List κ} :
    Regular (k :: ks) t ↔ t.inline = false ∧ ∀ c ∈ t.child k, Regular ks c := by
  cases t with
  | value a => simp [Regular, inline, child]
  | table i es => rfl

theorem regular_value (ks : List κ) (a : α) : Regular ks (.value a) := by
  cases ks <;> exact trivial

section Set

variable {last : κ} {new : α} {path : List κ} {t t' : TableTree κ α}
  {previous : Option (TableTree κ α)}

theorem setAt_nil (h : setAt last new [] t = some (t', previous)) :
    t.node = .table ∧ t'.node = .table ∧ t'.inline = t.inline ∧
      (∀ k, t'.child k = if k = last then some (.value new) else t.child k) ∧
      previous = (t.child last).bind asValue := by
  cases t with
  | value a => exact absurd h (by simp [setAt])
  | table i es =>
    obtain ⟨rfl, rfl⟩ := Prod.mk.inj (some.inj h)
    exact ⟨rfl, rfl, rfl, fun k => lookup_put es last k _, rfl⟩

theorem setAt_cons {k : κ} {ks : List κ}
    (h : setAt last new (k :: ks) t = some (t', previous)) :
    t.node = .table ∧ t'.node = .table ∧ t'.inline = false ∧
      ∃ c, setAt last new ks ((t.child k).getD (.table false [])) = some (c, previous) ∧
        ∀ k', t'.child k' = if k' = k then some c else t.child k' := by
  cases t with
  | value a => exact absurd h (by simp [setAt])
  | table i es =>
    rw [setAt, map_eq_some_iff] at h
    obtain ⟨⟨c, previous'⟩, hc, heq⟩ := h
    obtain ⟨rfl, rfl⟩ := Prod.mk.inj heq
    exact ⟨rfl, rfl, rfl, c, hc, fun k' => lookup_put es k k' c⟩

variable (h : setAt last new path t = some (t', previous))
include h

theorem node_of_setAt :
    t.node = .table ∧ t'.node = .table := by
  cases path with
  | nil => exact ⟨(setAt_nil h).1, (setAt_nil h).2.1⟩
  | cons k ks => exact ⟨(setAt_cons h).1, (setAt_cons h).2.1⟩

theorem find_of_setAt {p : List κ}
    (hp : p <+: path) : t.find p = none ∨ t.find p = some .table := by
  induction path generalizing t t' p with
  | nil =>
    rw [prefix_nil.mp hp, find_nil, (node_of_setAt h).1]
    exact .inr rfl
  | cons k ks ih =>
    obtain ⟨hroot, -, -, c, hc, -⟩ := setAt_cons h
    cases p with
    | nil => exact .inr (by rw [find_nil, hroot])
    | cons k' ps =>
      obtain ⟨rfl, hps⟩ := cons_prefix_cons.mp hp
      rw [find_cons]
      cases hl : t.child k' with
      | none => exact .inl rfl
      | some d =>
        rw [hl] at hc
        exact ih hc hps

theorem find_setAt (p : List κ) (hp : ¬ path ++ [last] <+: p ∨ p = path ++ [last]) :
    t'.find p = if p = path ++ [last] then some (.value new)
      else if p <+: path then some .table else t.find p := by
  induction path generalizing t t' p with
  | nil =>
    obtain ⟨-, hroot, -, hchild, -⟩ := setAt_nil h
    cases p with
    | nil => simp [hroot]
    | cons k ps =>
      rw [find_cons, hchild]
      by_cases hk : k = last
      · subst hk
        have hps : ps = [] := by simpa using hp
        simp [hps, node]
      · simp [hk, find_cons]
  | cons k ks ih =>
    obtain ⟨-, hroot, -, c, hc, hchild⟩ := setAt_cons h
    cases p with
    | nil => simp [hroot]
    | cons k' ps =>
      rw [find_cons, hchild]
      by_cases hk : k' = k
      · subst hk
        rw [if_pos rfl, bind_some, ih hc ps (by simpa using hp)]
        simp only [cons_append, List.cons.injEq, true_and, cons_prefix_cons]
        split_ifs with hlast hpath
        · rfl
        · rfl
        rw [find_cons]
        cases t.child k' with
        | some d => rfl
        | none =>
          cases ps with
          | nil => exact absurd nil_prefix hpath
          | cons k'' ps => rfl
      · simp [hk, find_cons]

theorem previous_of_setAt (hnot : t.find (path ++ [last]) ≠ some .table) :
    (previous = none ∧ t.find (path ++ [last]) = none) ∨
      ∃ a, previous = some (.value a) ∧ t.find (path ++ [last]) = some (.value a) := by
  induction path generalizing t t' with
  | nil =>
    obtain ⟨-, -, -, -, rfl⟩ := setAt_nil h
    rw [nil_append, find_cons] at hnot ⊢
    cases hl : t.child last with
    | none => exact .inl ⟨rfl, rfl⟩
    | some d =>
      rw [hl] at hnot
      cases d with
      | value a => exact .inr ⟨a, rfl, rfl⟩
      | table i' es' => exact absurd rfl hnot
  | cons k ks ih =>
    obtain ⟨-, -, -, c, hc, -⟩ := setAt_cons h
    rw [cons_append, find_cons] at hnot ⊢
    cases hl : t.child k with
    | some d =>
      rw [hl] at hc hnot
      exact ih hc hnot
    | none =>
      rw [hl] at hc
      have hempty : (TableTree.table false [] : TableTree κ α).find (ks ++ [last]) = none := by
        cases ks <;> rfl
      have hnone := ih hc (by rw [getD_none, hempty]; exact some_ne_none _ |>.symm)
      rw [getD_none, hempty] at hnone
      exact hnone

theorem regular_setAt_self :
    Regular path t' := by
  induction path generalizing t t' with
  | nil => exact trivial
  | cons k ks ih =>
    obtain ⟨-, -, hinline, c, hc, hchild⟩ := setAt_cons h
    refine regular_cons.mpr ⟨hinline, fun d hd => ?_⟩
    rw [hchild, if_pos rfl] at hd
    exact some.inj hd ▸ ih hc

theorem regular_setAt {p : List κ} (hp : Regular p t) : Regular p t' := by
  induction path generalizing t t' p with
  | nil =>
    obtain ⟨-, -, hinline, hchild, -⟩ := setAt_nil h
    cases p with
    | nil => exact trivial
    | cons k ps =>
      rw [regular_cons] at hp ⊢
      refine ⟨hinline ▸ hp.1, fun d hd => ?_⟩
      rw [hchild] at hd
      split_ifs at hd
      · exact some.inj hd ▸ regular_value ps new
      · exact hp.2 d hd
  | cons k ks ih =>
    obtain ⟨-, -, hinline, c, hc, hchild⟩ := setAt_cons h
    cases p with
    | nil => exact trivial
    | cons k' ps =>
      rw [regular_cons] at hp ⊢
      refine ⟨hinline, fun d hd => ?_⟩
      rw [hchild] at hd
      split_ifs at hd with hk
      · subst hk
        cases hd
        refine ih hc ?_
        cases hl : t.child k' with
        | some e => exact hp.2 e hl
        | none =>
          cases ps with
          | nil => exact trivial
          | cons k'' ps => exact ⟨rfl, nofun⟩
      · exact hp.2 d hd

end Set

section Restore

variable {last : κ} {path : List κ} {t : TableTree κ α} {previous : Option (TableTree κ α)}

theorem child_restoreAt_nil (ht : t.node = .table) (k : κ) :
    (restoreAt last previous [] t).child k = if k = last then previous else t.child k := by
  cases t with
  | value a => exact absurd ht (by simp [node])
  | table i es =>
    cases previous with
    | none => exact lookup_drop es last k
    | some u => exact lookup_put es last k u

/-- Restoring goes below an entry, which stays unless it is left an empty
table in a regular one. -/
theorem child_restoreAt_cons (last : κ) (previous : Option (TableTree κ α)) (k : κ) (ks : List κ)
    (t : TableTree κ α) (k' : κ) :
    (restoreAt last previous (k :: ks) t).child k' = if k' = k then
        ((t.child k).map (restoreAt last previous ks)).filter (t.inline || !·.isEmptyTable)
      else t.child k' := by
  cases t with
  | value a => simp [restoreAt, child]
  | table i es =>
    cases hl : es.lookup k with
    | none =>
      split_ifs with hk
      · simp [restoreAt, child, hl, hk]
      · simp [restoreAt, hl]
    | some c =>
      have hempty : (restoreAt last previous (k :: ks) (.table i es)) =
          if !i && (restoreAt last previous ks c).isEmptyTable then .table i (drop es k)
          else .table i (put es k (restoreAt last previous ks c)) := by rw [restoreAt, hl]
      rw [hempty, child, hl, map_some, filter_some, inline]
      cases i <;> cases (restoreAt last previous ks c).isEmptyTable <;>
        simp [child, lookup_put, lookup_drop]

theorem node_restoreAt (last : κ) (previous : Option (TableTree κ α)) (path : List κ)
    (t : TableTree κ α) : (restoreAt last previous path t).node = t.node := by
  unfold restoreAt
  split
  · rfl
  · rfl
  split
  · rfl
  · dsimp only
    split <;> rfl

variable {p ks : List κ} {c : TableTree κ α}

theorem find_restoreAt_apart (last : κ) (previous : Option (TableTree κ α))
    (hp : ¬ p <+: path) (hlast : ¬ path ++ [last] <+: p) :
    (restoreAt last previous path t).find p = t.find p := by
  induction path generalizing t p with
  | nil =>
    cases t with
    | value a => rfl
    | table i es =>
      obtain ⟨k, ps, rfl⟩ := exists_cons_of_ne_nil fun h => hp (prefix_nil.mpr h)
      have hk : k ≠ last := by
        rintro rfl
        exact hlast (by simp)
      rw [find_cons, child_restoreAt_nil rfl, if_neg hk, ← find_cons]
  | cons k ks ih =>
    cases p with
    | nil => exact absurd nil_prefix hp
    | cons k' ps =>
      rw [find_cons, find_cons, child_restoreAt_cons]
      split_ifs with hk
      · subst hk
        cases hc : t.child k' with
        | none => rfl
        | some c =>
          have hbelow := ih (t := c) (p := ps) (by simpa using hp) (by simpa using hlast)
          rw [map_some, filter_some, bind_some, ← hbelow]
          split_ifs with hkept
          · rfl
          · cases ps with
            | nil => exact absurd (by simp) hp
            | cons k'' ps =>
              have hempty : (restoreAt last previous ks c).isEmptyTable = true := by
                simpa using (Bool.or_eq_false_iff.mp (eq_false_of_ne_true hkept)).2
              exact (find_of_isEmptyTable hempty k'' ps).symm
      · rfl

theorem inline_restoreAt (h : t.inline = false) : (restoreAt last previous path t).inline = false := by
  unfold restoreAt
  split
  · rfl
  · rfl
  split
  · exact h
  · dsimp only
    split <;> exact h

theorem regular_restoreAt (hprevious : ∀ u ∈ previous, ∃ a, u = .value a)
    (hp : Regular p t) : Regular p (restoreAt last previous path t) := by
  induction path generalizing t p with
  | nil =>
    cases p with
    | nil => exact trivial
    | cons k ps =>
      cases t with
      | value a => exact hp
      | table i es =>
        refine regular_cons.mpr ⟨rfl, fun d hd => ?_⟩
        rw [child_restoreAt_nil rfl] at hd
        split_ifs at hd
        · obtain ⟨a, rfl⟩ := hprevious d hd
          exact regular_value ps a
        · exact hp.2 d hd
  | cons k ks ih =>
    cases p with
    | nil => exact trivial
    | cons k' ps =>
      rw [regular_cons] at hp ⊢
      refine ⟨inline_restoreAt hp.1, fun d hd => ?_⟩
      rw [child_restoreAt_cons] at hd
      split_ifs at hd with hk
      · obtain ⟨hd, -⟩ := filter_eq_some_iff.mp hd
        obtain ⟨c, hc, rfl⟩ := map_eq_some_iff.mp hd
        exact ih (hp.2 c (hk ▸ hc))
      · exact hp.2 d hd

/-- The tree with the key put back, before pruning. -/
def putBack (t : TableTree κ α) (path : List κ) (last : κ) (previous : Option α) (p : List κ) :
    Option (Node α) :=
  if p = path ++ [last] then previous.map .value else t.find p

/-- From `p` on, nothing but tables of the path. -/
def Bare (look : List κ → Option (Node α)) (path p : List κ) : Prop :=
  p ≠ [] ∧ p <+: path ∧ ∀ q, p <+: q → look q ≠ none → q <+: path

theorem putBack_cons {k : κ} (hc : t.child k = some c) (last : κ) (previous : Option α)
    (ps : List κ) :
    putBack t (k :: ks) last previous (k :: ps) = putBack c ks last previous ps := by
  simp [putBack, find_cons, hc]

theorem find_table_above {t : TableTree κ α} {q : List κ} (hpq : p <+: q)
    (hq : t.find q = some .table) : t.find p = some .table := by
  obtain ⟨r, rfl⟩ := hpq
  by_cases hr : r = []
  · subst hr
    rwa [append_nil] at hq
  · exact find_table_of_append hr (by rw [hq]; exact some_ne_none _)

theorem putBack_above {previous : Option α}
    (htable : c.find ks = some .table) (hval : c.find (ks ++ [last]) ≠ some .table)
    {q : List κ} (hpq : p <+: q) (hq : putBack c ks last previous q ≠ none) :
    putBack c ks last previous p ≠ none := by
  by_cases heq : p = q
  · exact heq ▸ hq
  have htab : c.find p = some .table := by
    by_cases hlast : q = ks ++ [last]
    · rw [hlast, prefix_concat_iff] at hpq
      exact find_table_above (hpq.resolve_left (hlast ▸ heq)) htable
    rw [putBack, if_neg hlast] at hq
    obtain ⟨r, rfl⟩ := hpq
    exact find_table_of_append (by rintro rfl; simp at heq) hq
  have hne : p ≠ ks ++ [last] := fun h => hval (h ▸ htab)
  rw [putBack, if_neg hne, htab]
  exact some_ne_none _

theorem isEmptyTable_iff {c' : TableTree κ α} {previous : Option α}
    (htable : c.find ks = some .table) (hval : c.find (ks ++ [last]) ≠ some .table)
    (hc' : c'.find [] = some .table)
    (hfind : ∀ p, p ≠ [] → (Bare (putBack c ks last previous) ks p → c'.find p = none) ∧
      (¬ Bare (putBack c ks last previous) ks p → c'.find p = putBack c ks last previous p)) :
    c'.isEmptyTable = true ↔ ∀ q, putBack c ks last previous q ≠ none → q <+: ks := by
  cases c' with
  | value a => exact absurd hc' (by simp [node])
  | table i es =>
    rw [isEmptyTable, List.isEmpty_iff, eq_nil_iff_lookup]
    have hchild (k : κ) : (TableTree.table i es).find [k] = none ↔ es.lookup k = none := by
      rw [find_cons, child]
      cases es.lookup k <;> simp
    constructor
    · intro hempty q hq
      cases q with
      | nil => exact nil_prefix
      | cons k ps =>
        have hfirst := putBack_above htable hval (show [k] <+: k :: ps by simp) hq
        have hbare : Bare (putBack c ks last previous) ks [k] := by
          by_contra hbare
          have heq := (hfind [k] (cons_ne_nil k [])).2 hbare
          rw [(hchild k).mpr (hempty k)] at heq
          exact hfirst heq.symm
        exact hbare.2.2 _ (by simp) hq
    intro hall k
    rw [← hchild]
    by_cases hbare : Bare (putBack c ks last previous) ks [k]
    · exact (hfind [k] (cons_ne_nil k [])).1 hbare
    rw [(hfind [k] (cons_ne_nil k [])).2 hbare]
    by_contra hsome
    exact hbare ⟨cons_ne_nil k [], hall [k] hsome, fun q _ hq => hall q hq⟩

omit [DecidableEq κ] in
theorem bare_cons {k : κ} {ps : List κ} {look look' : List κ → Option (Node α)}
    (hlook : ∀ qs, look (k :: qs) = look' qs) (hps : ps ≠ []) :
    Bare look (k :: ks) (k :: ps) ↔ Bare look' ks ps := by
  constructor
  · rintro ⟨-, hp, hall⟩
    refine ⟨hps, (cons_prefix_cons.mp hp).2, fun q hq hne => ?_⟩
    exact (cons_prefix_cons.mp (hall (k :: q) (by simpa using hq) (by rwa [hlook]))).2
  rintro ⟨-, hp, hall⟩
  refine ⟨cons_ne_nil k ps, by simpa using hp, fun q hq hne => ?_⟩
  obtain ⟨r, rfl⟩ := hq
  rw [cons_append, hlook] at hne
  simpa using hall (ps ++ r) (by simp) hne

/-- What restoring a key does, at every path: the key is put back, and of the
path those tables go that then hold nothing but tables of the path. -/
theorem find_restoreAt (previous : Option α) (hreg : Regular path t)
    (htable : t.find path = some .table) (hval : t.find (path ++ [last]) ≠ some .table)
    (hp : p ≠ []) :
    (Bare (putBack t path last previous) path p →
        (restoreAt last (previous.map .value) path t).find p = none) ∧
      (¬ Bare (putBack t path last previous) path p →
        (restoreAt last (previous.map .value) path t).find p =
          putBack t path last previous p) := by
  induction path generalizing t p with
  | nil =>
    refine ⟨fun hbare => absurd (prefix_nil.mp hbare.2.1) hp, fun _ => ?_⟩
    obtain ⟨k, ps, rfl⟩ := exists_cons_of_ne_nil hp
    rw [find_cons, child_restoreAt_nil (some.inj htable), putBack]
    by_cases hk : k = last
    · subst hk
      cases ps with
      | nil => cases previous <;> simp [node]
      | cons k' ps =>
        have hnone : t.find (k :: k' :: ps) = none := by
          by_contra hsome
          exact hval (find_table_of_append (p := [k]) (cons_ne_nil k' ps) hsome)
        rw [if_pos rfl, if_neg (by simp), hnone]
        cases previous <;> rfl
    · simp [hk, find_cons]
  | cons k ks ih =>
    obtain ⟨k', ps, rfl⟩ := exists_cons_of_ne_nil hp
    by_cases hk : k' = k
    · subst hk
      rw [regular_cons] at hreg
      rw [find_cons] at htable
      rw [cons_append, find_cons] at hval
      cases hc : t.child k' with
      | none => exact absurd htable (by simp [hc])
      | some c =>
        rw [hc, bind_some] at htable hval
        have hsub := fun p hp => ih (p := p) (hreg.2 c hc) htable hval hp
        have hroot : (restoreAt last (previous.map .value) ks c).find [] = some .table := by
          rw [find_nil, node_restoreAt, ← find_nil]
          exact find_table_above nil_prefix htable
        have hempty := isEmptyTable_iff htable hval hroot hsub
        rw [find_cons, child_restoreAt_cons, if_pos rfl, hc, map_some, filter_some,
          hreg.1, Bool.false_or, putBack_cons hc]
        split_ifs with hfull
        · rw [bind_some]
          by_cases hps : ps = []
          · subst hps
            have hkept : ¬ Bare (putBack t (k' :: ks) last previous) (k' :: ks) [k'] := by
              intro hbare
              refine absurd (hempty.mpr fun q hq => ?_) (by simpa using hfull)
              have hpre := hbare.2.2 (k' :: q) (by simp) (by rwa [putBack_cons hc])
              simpa using hpre
            refine ⟨fun hbare => absurd hbare hkept, fun _ => ?_⟩
            rw [hroot, putBack, if_neg (by simp)]
            exact (find_table_above nil_prefix htable).symm
          · rw [bare_cons (putBack_cons hc last previous) hps]
            exact hsub ps hps
        -- the table is pruned, and the path with it
        refine ⟨fun _ => rfl, fun hnot => ?_⟩
        by_contra hsome
        have hall := hempty.mp (by simpa using hfull)
        refine hnot ⟨cons_ne_nil k' ps, ?_, fun q hq hne => ?_⟩
        · simpa using hall ps (Ne.symm hsome)
        obtain ⟨r, rfl⟩ := hq
        rw [cons_append, putBack_cons hc] at hne
        simpa using hall (ps ++ r) hne
    have hpre : ¬ k' :: ps <+: k :: ks := fun h => hk (cons_prefix_cons.mp h).1
    refine ⟨fun hbare => absurd hbare.2.1 hpre, fun _ => ?_⟩
    rw [putBack, if_neg (by simp [hk])]
    exact find_restoreAt_apart last _ hpre (by simp [Ne.symm hk])

end Restore

/-! ## Putting back twice, and values alone -/

section Twice

variable {last : κ} {path : List κ} {t : TableTree κ α} {previous : Option (TableTree κ α)}

variable {τ : Type}

theorem put_lookup {es : List (κ × τ)} {k : κ} {t : τ} (h : es.lookup k = some t) :
    put es k t = es := by
  induction es with
  | nil => exact absurd h (by simp)
  | cons e es ih =>
    obtain ⟨k₀, t₀⟩ := e
    rw [lookup_cons_eq] at h
    unfold put
    split_ifs at h ⊢ with h₁ h₂
    · obtain rfl : t₀ = t := some.inj h
      rw [h₁]
    · exact absurd h₁.symm h₂
    · rename_i h₃
      exact absurd h₃.symm h₁
    · rw [ih h]

theorem put_put (es : List (κ × τ)) (k : κ) (t : τ) :
    put (put es k t) k t = put es k t :=
  put_lookup (by rw [lookup_put, if_pos rfl])

theorem drop_drop (es : List (κ × τ)) (k : κ) : drop (drop es k) k = drop es k := by
  simp [drop]

theorem restoreAt_twice (last : κ) (previous : Option (TableTree κ α)) (path : List κ)
    (t : TableTree κ α) :
    restoreAt last previous path (restoreAt last previous path t) =
      restoreAt last previous path t := by
  induction path generalizing t with
  | nil =>
    cases t with
    | value a => rfl
    | table i es => cases previous <;> simp [restoreAt, drop_drop, put_put]
  | cons k ks ih =>
    cases t with
    | value a => rfl
    | table i es =>
      cases hc : es.lookup k with
      | none => simp [restoreAt, hc]
      | some c =>
        by_cases hempty : (!i && (restoreAt last previous ks c).isEmptyTable) = true
        · simp [restoreAt, hc, hempty, lookup_drop]
        · simp [restoreAt, hc, hempty, lookup_put, ih, put_put]

/-- The value at a path. -/
def valueAt (t : TableTree κ α) (p : List κ) : Option α :=
  (t.find p).bind fun
    | .value a => some a
    | .table => none

theorem valueAt_eq_some {p : List κ} {a : α} :
    t.valueAt p = some a ↔ t.find p = some (.value a) := by
  unfold valueAt
  cases t.find p with
  | none => simp
  | some n => cases n <;> simp

theorem valueAt_eq_none {p : List κ} :
    t.valueAt p = none ↔ t.find p = none ∨ t.find p = some .table := by
  unfold valueAt
  cases t.find p with
  | none => simp
  | some n => cases n <;> simp

theorem valueAt_cons (t : TableTree κ α) (k : κ) (ks : List κ) :
    t.valueAt (k :: ks) = (t.child k).bind (valueAt · ks) := by
  rw [valueAt, find_cons, bind_assoc]
  rfl

theorem valueAt_of_isEmptyTable (h : t.isEmptyTable = true) (p : List κ) :
    t.valueAt p = none := by
  cases t with
  | value a => exact absurd h (by simp [isEmptyTable])
  | table i es =>
    obtain rfl := List.isEmpty_iff.mp h
    cases p <;> rfl

theorem valueAt_restoreAt (previous : Option α) {a : α}
    (hval : t.find (path ++ [last]) = some (.value a)) (p : List κ) :
    (restoreAt last (previous.map .value) path t).valueAt p =
      if p = path ++ [last] then previous else t.valueAt p := by
  induction path generalizing t p with
  | nil =>
    cases p with
    | nil => rw [if_neg (by simp), valueAt, find_nil, node_restoreAt, ← find_nil, ← valueAt]
    | cons k ps =>
      have hroot := find_table_of_append (p := []) (by simp) (hval ▸ some_ne_none _)
      rw [valueAt_cons, child_restoreAt_nil (some.inj hroot), valueAt_cons]
      by_cases hk : k = last
      · subst hk
        rw [nil_append, find_cons] at hval
        obtain ⟨c, hc, hnode⟩ := bind_eq_some_iff.mp hval
        cases c with
        | table j fs => exact absurd hnode (by simp [node])
        | value b =>
          rw [hc]
          cases ps <;> cases previous <;> simp [valueAt, find_cons, child, node]
      · simp [hk]
  | cons k ks ih =>
    cases p with
    | nil => rw [if_neg (by simp), valueAt, find_nil, node_restoreAt, ← find_nil, ← valueAt]
    | cons k' ps =>
      rw [valueAt_cons, child_restoreAt_cons, valueAt_cons]
      by_cases hk : k' = k
      · subst hk
        rw [cons_append, find_cons] at hval
        obtain ⟨c, hc, hbelow⟩ := bind_eq_some_iff.mp hval
        have hsub := ih hbelow ps
        simp only [hc, if_true, map_some, filter_some, bind_some,
          cons_append, List.cons.injEq, true_and]
        rw [← hsub]
        split_ifs with hkept
        · rfl
        · have hempty := (Bool.or_eq_false_iff.mp (eq_false_of_ne_true hkept)).2
          exact (valueAt_of_isEmptyTable (by simpa using hempty) ps).symm
      · simp [hk]

end Twice

/-! ## Undoing an edit -/

section Undo

variable {last : κ} {new : α} {path : List κ} {paths : List (List κ)} {t t' d : TableTree κ α}
  {previous : Option (TableTree κ α)}

/-- A table on one of the paths that holds nothing but such tables. -/
def Hollow (t : TableTree κ α) (paths : List (List κ)) (p : List κ) : Prop :=
  p ≠ [] ∧ t.find p = some .table ∧
    ∀ q, p <+: q → t.find q ≠ none → t.find q = some .table ∧ ∃ path ∈ paths, q <+: path

/-- `d` is `t` without its hollow tables. -/
def Undone (paths : List (List κ)) (t d : TableTree κ α) : Prop :=
  ∀ p, (t.Hollow paths p → d.find p = none) ∧ (¬ t.Hollow paths p → d.find p = t.find p)

theorem undone_nil (t : TableTree κ α) : Undone [] t t := by
  refine fun p => ⟨fun h => ?_, fun _ => rfl⟩
  obtain ⟨-, htable, hall⟩ := h
  obtain ⟨-, path, hpath, -⟩ := hall p (prefix_refl p) (by rw [htable]; simp)
  exact absurd hpath not_mem_nil

variable {p : List κ}

theorem Undone.find_ne_none (h : Undone paths t d) (hp : d.find p ≠ none) :
    t.find p ≠ none ∧ ¬ t.Hollow paths p := by
  have hnot : ¬ t.Hollow paths p := fun hollow => hp ((h p).1 hollow)
  exact ⟨(h p).2 hnot ▸ hp, hnot⟩

theorem find_eq_none_of_strict {q : List κ} (hpq : p <+: q) (hne : p ≠ q)
    (hp : t.find p ≠ some .table) : t.find q = none := by
  obtain ⟨r, rfl⟩ := hpq
  by_contra hsome
  exact hp (find_table_of_append (by rintro rfl; simp at hne) hsome)

variable (h : setAt last new path t = some (t', previous))
  (hnot : t.find (path ++ [last]) ≠ some .table)
include h hnot

/-- Where no table is in its place, a value replaces nothing else. -/
theorem find_setAt_all (p : List κ) :
    t'.find p = if p = path ++ [last] then some (.value new)
      else if p <+: path then some .table else t.find p := by
  by_cases hbelow : path ++ [last] <+: p
  · by_cases heq : p = path ++ [last]
    · exact find_setAt h p (.inr heq)
    have hkey := find_setAt h (path ++ [last]) (.inr rfl)
    rw [if_pos rfl] at hkey
    have hpre : ¬ p <+: path := by
      intro hp
      have hlen := (hbelow.trans hp).length_le
      simp at hlen
    rw [if_neg heq, if_neg hpre, find_eq_none_of_strict hbelow (Ne.symm heq) hnot]
    exact find_eq_none_of_strict hbelow (Ne.symm heq) (by rw [hkey]; simp)
  · exact find_setAt h p (.inl hbelow)

theorem valueAt_setAt (p : List κ) :
    t'.valueAt p = if p = path ++ [last] then some new else t.valueAt p := by
  have hset := find_setAt_all h hnot p
  split_ifs at hset ⊢ with hkey hpath
  · exact valueAt_eq_some.mpr hset
  · rw [valueAt_eq_none.mpr (.inr hset), valueAt_eq_none.mpr (find_of_setAt h hpath)]
  · rw [valueAt, hset, ← valueAt]

/-- Off the path and the key, the tables are as hollow as they were. -/
theorem hollow_setAt (hpath : ¬ p <+: path)
    (hkey : p ≠ path ++ [last]) : t'.Hollow paths p ↔ t.Hollow (path :: paths) p := by
  have hoff : ∀ q, p <+: q → ¬ q <+: path ∧ t'.find q = t.find q := by
    intro q hq
    have hq' : ¬ q <+: path := fun hpre => hpath (hq.trans hpre)
    refine ⟨hq', ?_⟩
    by_cases heq : q = path ++ [last]
    · rw [heq, prefix_concat_iff] at hq
      exact absurd hq (by simp [hkey, hpath])
    · rw [find_setAt_all h hnot, if_neg heq, if_neg hq']
  unfold Hollow
  rw [(hoff p (prefix_refl p)).2]
  refine and_congr_right fun _ => and_congr_right fun _ => forall_congr' fun q => ?_
  refine imp_congr_right fun hq => ?_
  rw [(hoff q hq).2]
  refine imp_congr_right fun _ => and_congr_right fun _ => ?_
  simp [(hoff q hq).1]

theorem find_setAt_key : t'.find (path ++ [last]) = some (.value new) := by
  rw [find_setAt_all h hnot, if_pos rfl]

theorem find_setAt_path {q : List κ} (hq : q <+: path) : t'.find q = some .table := by
  have hne : q ≠ path ++ [last] := by
    rintro rfl
    have hlen := hq.length_le
    simp at hlen
  rw [find_setAt_all h hnot, if_neg hne, if_pos hq]

/-- What is above the key is not hollow. -/
theorem not_hollow_setAt {q : List κ} (hq : q <+: path) : ¬ t'.Hollow paths q := by
  intro hollow
  have hkey := find_setAt_key h hnot
  have htab := (hollow.2.2 (path ++ [last]) (hq.trans (prefix_append _ _))
    (by rw [hkey]; simp)).1
  rw [hkey] at htab
  simp at htab

namespace Undone

variable (hd : Undone paths t' d)
include hd

theorem find_path {q : List κ} (hq : q <+: path) : d.find q = some .table :=
  ((hd q).2 (not_hollow_setAt h hnot hq)).trans (find_setAt_path h hnot hq)

theorem find_key : d.find (path ++ [last]) = some (.value new) := by
  have hkey := find_setAt_key h hnot
  refine ((hd _).2 fun hollow => ?_).trans hkey
  exact absurd (hkey.symm.trans hollow.2.1) (by simp)

section

variable {pv : Option α} (hput : ∀ q, putBack d path last pv q =
    if q = path ++ [last] then t.find (path ++ [last]) else d.find q)
  (hp : p ≠ []) (hpath : p <+: path)
include hput hp hpath

/-- A table the edit made is bare once the value is put back. -/
theorem bare_of_none (hnone : t.find p = none) : Bare (putBack d path last pv) path p := by
  have hgone : ∀ q, p <+: q → t.find q = none := by
    intro q hq
    by_cases heq : p = q
    · exact heq ▸ hnone
    · exact find_eq_none_of_strict hq heq (by rw [hnone]; simp)
  refine ⟨hp, hpath, fun q hq hsome => ?_⟩
  rw [hput] at hsome
  split_ifs at hsome with heq
  · exact absurd (hgone _ (hpath.trans (prefix_append _ _))) hsome
  have hsome' := (hd.find_ne_none hsome).1
  rw [find_setAt_all h hnot, if_neg heq] at hsome'
  by_contra hq'
  rw [if_neg hq'] at hsome'
  exact hsome' (hgone q hq)

/-- One that was there before is bare exactly if it was hollow. -/
theorem bare_iff_hollow (htable : t.find p = some .table) :
    Bare (putBack d path last pv) path p ↔ t.Hollow (path :: paths) p := by
  have hset := find_setAt_all h hnot
  constructor
  · rintro ⟨-, -, hall⟩
    refine ⟨hp, htable, fun q hq hsome => ?_⟩
    by_cases hq' : q <+: path
    · exact ⟨(find_of_setAt h hq').resolve_left hsome, path, .head _, hq'⟩
    by_cases heq : q = path ++ [last]
    · refine absurd (hall q hq ?_) hq'
      rw [hput, if_pos heq, ← heq]
      exact hsome
    have htq : t'.find q = t.find q := by rw [hset, if_neg heq, if_neg hq']
    by_cases hollow : t'.Hollow paths q
    · obtain ⟨htab, path', hmem, hpre⟩ :=
        hollow.2.2 q (prefix_refl q) (by rw [htq]; exact hsome)
      exact ⟨htq ▸ htab, path', .tail _ hmem, hpre⟩
    refine absurd (hall q hq ?_) hq'
    rw [hput, if_neg heq, (hd q).2 hollow, htq]
    exact hsome
  rintro ⟨-, -, hall⟩
  refine ⟨hp, hpath, fun q hq hsome => ?_⟩
  by_contra hq'
  rw [hput] at hsome
  split_ifs at hsome with heq
  · exact hnot (hall _ (hpath.trans (prefix_append _ _)) hsome).1
  obtain ⟨hsome', hollow⟩ := hd.find_ne_none hsome
  rw [hollow_setAt h hnot hq' heq] at hollow
  rw [hset, if_neg heq, if_neg hq'] at hsome'
  refine hollow ⟨?_, (hall q hq hsome').1, fun r hr => hall r (hq.trans hr)⟩
  rintro rfl
  exact hp (prefix_nil.mp hq)

end

/-- **Undoing one edit**: a value set, whatever happened then undone up to
hollow tables, and the value put back, is all undone up to hollow tables. -/
theorem restoreAt (hreg : Regular path d) :
    Undone (path :: paths) t (restoreAt last previous path d) := by
  obtain ⟨pv, rfl, hpv⟩ : ∃ pv : Option α, previous = pv.map .value ∧
      t.find (path ++ [last]) = pv.map .value := by
    obtain ⟨rfl, hnone⟩ | ⟨a, rfl, ha⟩ := previous_of_setAt h hnot
    · exact ⟨none, rfl, hnone⟩
    · exact ⟨some a, rfl, ha⟩
  have hput : ∀ q, putBack d path last pv q =
      if q = path ++ [last] then t.find (path ++ [last]) else d.find q := by
    intro q
    rw [putBack, hpv]
  intro p
  by_cases hp : p = []
  · subst hp
    have htable : t.find [] = some .table := by
      have hroot := find_of_setAt h nil_prefix
      simpa using hroot
    refine ⟨nofun, fun _ => ?_⟩
    rw [find_nil, node_restoreAt, ← find_nil, htable]
    exact hd.find_path h hnot nil_prefix
  have hrestore := find_restoreAt pv hreg (hd.find_path h hnot (prefix_refl path))
    (by rw [hd.find_key h hnot]; simp) hp
  by_cases hpath : p <+: path
  · obtain hnone | htable := find_of_setAt h hpath
    · -- made by the edit, and pruned with it
      refine ⟨fun hollow => absurd (hnone.symm.trans hollow.2.1) (by simp), fun _ => ?_⟩
      rw [hnone]
      exact hrestore.1 (hd.bare_of_none h hnot hput hp hpath hnone)
    -- there before: pruned exactly if hollow
    have hbare := hd.bare_iff_hollow h hnot hput hp hpath htable
    have hne : p ≠ path ++ [last] := by
      rintro rfl
      exact hnot htable
    refine ⟨fun hollow => hrestore.1 (hbare.mpr hollow), fun hollow => ?_⟩
    rw [hrestore.2 (mt hbare.mp hollow), hput, if_neg hne, hd.find_path h hnot hpath, htable]
  have hoff := hrestore.2 fun hbare => hpath hbare.2.1
  rw [hoff, hput]
  split_ifs with heq
  · refine ⟨fun hollow => absurd (heq ▸ hollow.2.1) hnot, fun _ => by rw [heq]⟩
  rw [← hollow_setAt h hnot hpath heq]
  refine ⟨(hd p).1, fun hollow => ?_⟩
  rw [(hd p).2 hollow, find_setAt_all h hnot, if_neg heq, if_neg hpath]

end Undone

end Undo

end TableTree

end Fjarr.Lib
