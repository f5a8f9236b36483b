/-
Fjarr.Setup.Interrupted — setup and undo stopped between two operations.

A command that is run again starts from the files, the copies and the
record it finds. `undo` saves the record after every change, so it takes up
where it was stopped (`undo_turn`, `undo_resumed`), but for one place: a
copy is removed before its entry is. `write_file` keeps a copy of a file
that no entry is recorded for, and the entry is saved last: between the two
a rerun takes setup's own output for the original.
-/
import Fjarr.Setup.Record

namespace Fjarr.Setup

open Lib List Option Function

variable {C V : Type}

/-- The file a change is about, if it is about one as a whole. -/
def Change.filePath : Change V → Option String
  | .file path _ => some path
  | .configValue .. => none

/-- A recorded value was found where the key was set. -/
def Change.Found (toml : Toml C V) : Change V → Prop
  | .file .. => True
  | .configValue _ table key previous =>
    ∃ c new r, setCapValue table key new (toml.parse c) = some (r, previous)

/-- What undoing a change does to the file at `p`, whose copy is `copy`. -/
def Change.on (toml : Toml C V) (p : String) (copy x : Option C) : Change V → Option C
  | .file q backup => if q = p then (if backup then copy else none) else x
  | .configValue q table key previous =>
    if q = p then x.map (Disk.restoreValue toml table key previous) else x

/-- What undoing changes in turn does to it. -/
def onAll (toml : Toml C V) (p : String) (copy : Option C) (entries : List (Entry V))
    (x : Option C) : Option C :=
  entries.foldl (fun x e => e.change.on toml p copy x) x

namespace Disk

/-- No entry's copy is gone. -/
def Safe (d : Disk C V) : Prop :=
  ∀ e ∈ d.record, ∀ path, e.change = .file path true → d.copies path ≠ none

/-- A disk that completed commands leave: every copy is there, no two
entries are about one file, and every recorded value was found. -/
structure Stocked (toml : Toml C V) (d : Disk C V) : Prop where
  safe : d.Safe
  unique : (d.record.filterMap (·.change.filePath)).Nodup
  found : ∀ e ∈ d.record, e.change.Found toml

variable {toml : Toml C V} {d d' : Disk C V} {f : String} {e : Entry V} {todo : List (Entry V)}

/-! ## One change -/

variable {change : Change V} {path : String} {b : Bool} {n : Nat}

theorem parse_restoreValue {file : String} {table key : List Char} {previous : Option (Doc V)}
    (hfound : (Change.configValue file table key previous).Found toml) (c : C) :
    toml.parse (restoreValue toml table key previous c) =
      restoreCapValue table key previous (toml.parse c) := by
  obtain ⟨_, _, _, hset⟩ := hfound
  exact toml.parse_print _ (.restore (.read c) (.read _) hset)

theorem restoreOne_twice (hfound : change.Found toml)
    (h : d.restoreOne toml change = some d') : d'.restoreOne toml change = some d' := by
  cases change with
  | file path backup =>
    cases backup with
    | true =>
      obtain ⟨c, hc, rfl⟩ := map_eq_some_iff.mp h
      simp [restoreOne, put, hc]
    | false =>
      cases h
      simp [restoreOne, put]
  | configValue file table key previous =>
    cases h
    have htwice : restoreValue toml table key previous ∘ restoreValue toml table key previous =
        restoreValue toml table key previous := by
      funext c
      rw [Function.comp_apply, restoreValue, parse_restoreValue hfound, restoreCapValue,
        restoreCapValue, TableTree.restoreAt_twice]
      rfl
    simp [restoreOne, put, htwice]

theorem undoOne_frame (h : d.undoOne toml change = some d') :
    d'.record = d.record ∧
      (∀ p, change ≠ .file p true → d'.copies p = d.copies p) ∧
      ∀ p, d'.copies p = none ∨ d'.copies p = d.copies p := by
  obtain ⟨d₁, h₁, rfl⟩ := map_eq_some_iff.mp h
  cases change with
  | file path backup =>
    cases backup with
    | true =>
      obtain ⟨c, hc, rfl⟩ := map_eq_some_iff.mp h₁
      refine ⟨rfl, fun p hp => update_of_ne (by simpa [eq_comm] using hp) _ _,
        fun p => ?_⟩
      by_cases hp : p = path
      · exact .inl (by simp [dropCopy, hp])
      · exact .inr (update_of_ne hp _ _)
    | false =>
      cases h₁
      exact ⟨rfl, fun _ _ => rfl, fun _ => .inr rfl⟩
  | configValue file table key previous =>
    cases h₁
    exact ⟨rfl, fun _ _ => rfl, fun _ => .inr rfl⟩

theorem exists_undoOne (toml : Toml C V)
    (h : ∀ path, change = .file path true → d.copies path ≠ none) :
    ∃ d', d.undoOne toml change = some d' := by
  cases change with
  | file path backup =>
    cases backup with
    | true =>
      obtain ⟨c, hc⟩ := ne_none_iff_exists'.mp (h path rfl)
      simp [undoOne, restoreOne, hc]
    | false => simp [undoOne, restoreOne]
  | configValue file table key previous => simp [undoOne, restoreOne]

theorem files_undoOne (h : d.undoOne toml change = some d') (p : String) :
    d'.files p = change.on toml p (d.copies p) (d.files p) := by
  obtain ⟨r, hr, rfl⟩ := map_eq_some_iff.mp h
  have hput (q : String) (y : Option C) :
      Function.update d.files q y p = if q = p then y else d.files p := by
    by_cases hq : q = p
    · simp [hq]
    · rw [if_neg hq, update_of_ne (Ne.symm hq)]
  cases change with
  | file q backup =>
    cases backup with
    | true =>
      obtain ⟨c, hc, rfl⟩ := map_eq_some_iff.mp hr
      refine (hput q (some c)).trans ?_
      by_cases hq : q = p
      · subst hq
        simp [Change.on, hc]
      · simp [Change.on, hq]
    | false =>
      cases hr
      exact (hput q none).trans (by simp [Change.on])
  | configValue q table key previous =>
    cases hr
    refine (hput q _).trans ?_
    by_cases hq : q = p
    · subst hq
      rfl
    · simp [Change.on, hq]

/-! ## Changes undone in turn -/

section OnAll

variable {p : String} {copy copy' x y : Option C} {entries : List (Entry V)}

theorem onAll_cons (e : Entry V) :
    onAll toml p copy (e :: entries) x =
      onAll toml p copy entries (e.change.on toml p copy x) := rfl

theorem onAll_append (older : List (Entry V)) :
    onAll toml p copy (entries ++ older) x =
      onAll toml p copy older (onAll toml p copy entries x) :=
  foldl_append

theorem onAll_copy (h : (∃ e ∈ entries, e.change = .file p true) → copy' = copy) :
    onAll toml p copy' entries x = onAll toml p copy entries x := by
  induction entries generalizing x with
  | nil => rfl
  | cons e entries ih =>
    have hfirst : e.change.on toml p copy' x = e.change.on toml p copy x := by
      cases hc : e.change with
      | file q backup =>
        by_cases hown : q = p ∧ backup = true
        · rw [h ⟨e, .head _, by rw [hc, hown.1, hown.2]⟩]
        · simp only [Change.on]
          grind
      | configValue q table key previous => rfl
    rw [onAll_cons, onAll_cons, hfirst]
    exact ih fun ⟨e', he', hc⟩ => h ⟨e', .tail _ he', hc⟩

/-- After a file's own entry it does not matter what was there. -/
theorem onAll_overwrite {b : Bool} (h : ∃ e ∈ entries, e.change = .file p b) (x y : Option C) :
    onAll toml p copy entries x = onAll toml p copy entries y := by
  induction entries generalizing x y with
  | nil => exact absurd h (by simp)
  | cons e entries ih =>
    obtain ⟨e', he', hc⟩ := h
    rw [onAll_cons, onAll_cons]
    obtain rfl | he' := mem_cons.mp he'
    · rw [hc]
      simp [Change.on]
    · exact ih ⟨e', he', hc⟩ _ _

/-- Without one the file stays, or stays absent. -/
theorem isSome_onAll (h : ∀ e ∈ entries, ∀ b, e.change ≠ .file p b) :
    (onAll toml p copy entries x).isSome = x.isSome := by
  induction entries generalizing x with
  | nil => rfl
  | cons e entries ih =>
    rw [onAll_cons, ih fun e' he' => h e' (.tail _ he')]
    cases hc : e.change with
    | file q backup =>
      have hq : q ≠ p := fun hq => h e (.head _) backup (hq ▸ hc)
      simp [Change.on, hq]
    | configValue q table key previous =>
      simp only [Change.on]
      split_ifs <;> simp

end OnAll

/-! ## One turn of the loop -/

theorem record_perm (d : Disk C V) (f : String) :
    d.record.Perm (d.others f ++ (d.mine f).reverse) := by
  rw [mine, reverse_reverse, others]
  have hperm := filter_append_perm (fun e : Entry V => decide (e.feature ≠ f)) d.record
  simpa using hperm.symm

theorem feature_of_mem_mine (h : e ∈ d.mine f) : e.feature = f := by
  simpa using (mem_filter.mp (mem_reverse.mp h)).2

theorem feature_of_mem_others (h : e ∈ d.others f) : e.feature ≠ f := by
  simpa using (mem_filter.mp h).2

/-- The record after a turn, taken apart. -/
theorem mine_others_append {rest : List (Entry V)} (hrest : ∀ e ∈ rest, e.feature ≠ f)
    (htodo : ∀ e ∈ todo, e.feature = f) (h : d.record = rest ++ todo.reverse) :
    d.mine f = todo ∧ d.others f = rest := by
  unfold mine others
  rw [h, filter_append, filter_append]
  have hnone : rest.filter (fun e => decide (e.feature = f)) = [] := by
    simpa using hrest
  have hall : todo.reverse.filter (fun e => decide (e.feature = f)) = todo.reverse := by
    simpa using htodo
  have hrest' : rest.filter (fun e => decide (e.feature ≠ f)) = rest := by
    simpa using hrest
  have hnone' : todo.reverse.filter (fun e => decide (e.feature ≠ f)) = [] := by
    simpa using htodo
  rw [hnone, hall, hrest', hnone']
  simp

/-- A turn undoes the newest change of the feature and saves the rest. -/
theorem undo_turn (toml : Toml C V) (hd : d.Stocked toml) (hmine : d.mine f = e :: todo) :
    ∃ d₁ d₃, d.undoOne toml e.change = some d₁ ∧
      d₃ = { d₁ with record := d.others f ++ todo.reverse } ∧ d₃.mine f = todo ∧
      d₃.others f = d.others f ∧ d₃.Stocked toml ∧ d.undo toml f = d₃.undo toml f ∧
      ∀ n, d.undoAt toml (n + 3) f = d₃.undoAt toml n f := by
  have hperm : d.record.Perm (e :: (d.others f ++ todo.reverse)) := by
    refine (d.record_perm f).trans ?_
    rw [hmine, reverse_cons, ← append_assoc]
    exact perm_append_singleton e _
  have hmem : e ∈ d.record := hperm.symm.subset (.head _)
  obtain ⟨d₁, hone⟩ := exists_undoOne toml (hd.safe e hmem)
  refine ⟨d₁, { d₁ with record := d.others f ++ todo.reverse }, hone, rfl, ?_⟩
  have hfeatures : ∀ e' ∈ todo, e'.feature = f := fun e' he' =>
    feature_of_mem_mine (hmine ▸ mem_cons_of_mem e he')
  obtain ⟨hmine', hothers'⟩ := mine_others_append
    (d := { d₁ with record := d.others f ++ todo.reverse })
    (fun e' he' => feature_of_mem_others he') hfeatures rfl
  obtain ⟨-, hcopies, -⟩ := undoOne_frame hone
  have hnodup := (hperm.filterMap (·.change.filePath)).nodup_iff.mp hd.unique
  have hstocked : Stocked toml { d₁ with record := d.others f ++ todo.reverse } := by
    refine ⟨fun e' he' path hpath => ?_, ?_, fun e' he' =>
      hd.found e' (hperm.symm.subset (.tail _ he'))⟩
    · have hne : e.change ≠ .file path true := by
        intro heq
        rw [filterMap_cons_some (b := path) (by rw [heq]; rfl), nodup_cons] at hnodup
        exact hnodup.1 (mem_filterMap.mpr ⟨e', he', by rw [hpath]; rfl⟩)
      rw [show ({ d₁ with record := d.others f ++ todo.reverse } : Disk C V).copies path =
        d₁.copies path from rfl, hcopies path hne]
      exact hd.safe e' (hperm.symm.subset (.tail _ he')) path hpath
    · exact hnodup.sublist ((sublist_cons_self e _).filterMap _)
  have hloop : ∀ n, d.undoAt toml (n + 3) f =
      undoAt toml n { d₁ with record := d.others f ++ todo.reverse } f := by
    intro n
    rw [undoAt, undoAt, hmine', hothers', hmine, undoLoopAt]
    simp [undoEntry, hone]
  refine ⟨hmine', hothers', hstocked, ?_, hloop⟩
  rw [undo, hmine, length_cons, undo, hmine', Nat.mul_succ, hloop]

theorem undo_of_mine_nil (toml : Toml C V) (h : d.mine f = []) : d.undo toml f = d := by
  rw [undo, undoAt, h]
  exact undoLoopAt_nil toml _ _ _ d

/-! ## Undo, interrupted -/

/-- Restoring the newest change and being stopped is not noticed. -/
theorem undo_restored (hd : d.Stocked toml) (hmine : d.mine f = e :: todo)
    (h : d.restoreOne toml e.change = some d') (hd' : d'.record = d.record)
    (hcopies : d'.copies = d.copies) : d'.undo toml f = d.undo toml f := by
  have hmine' : d'.mine f = e :: todo := by rw [mine, hd', ← mine, hmine]
  have hothers' : d'.others f = d.others f := by rw [others, hd', ← others]
  have hstocked' : d'.Stocked toml :=
    ⟨fun e' he' path hpath => by rw [hcopies]; exact hd.safe e' (hd' ▸ he') path hpath,
      by rw [hd']; exact hd.unique, by rw [hd']; exact hd.found⟩
  obtain ⟨d₁, d₃, hone, hd₃, -, -, -, hundo, -⟩ := undo_turn toml hd hmine
  obtain ⟨d₁', d₃', hone', hd₃', -, -, -, hundo', -⟩ := undo_turn toml hstocked' hmine'
  have heq : d₁' = d₁ := by
    have hmem : e ∈ d.record := mem_of_mem_filter (mem_reverse.mp (hmine ▸ mem_cons_self))
    rw [undoOne, restoreOne_twice (hd.found e hmem) h, map_some] at hone'
    rw [undoOne, h, map_some] at hone
    exact some.inj (hone'.symm.trans hone)
  rw [hundo', hundo, hd₃', hd₃, heq, hothers']

theorem restoreOne_frame (h : d.restoreOne toml change = some d') :
    d'.record = d.record ∧ d'.copies = d.copies := by
  cases change with
  | file path backup =>
    cases backup with
    | true =>
      obtain ⟨c, hc, rfl⟩ := map_eq_some_iff.mp h
      exact ⟨rfl, rfl⟩
    | false =>
      cases h
      exact ⟨rfl, rfl⟩
  | configValue file table key previous =>
    cases h
    exact ⟨rfl, rfl⟩

/-- The place where undo must not be stopped: the copy of a change is
removed, and its entry is not. -/
def CopyRemoved (n : Nat) (changes : List (Entry V)) : Prop :=
  n % 3 = 2 ∧ ∃ e path, changes[n / 3]? = some e ∧ e.change = .file path true

/-- Stopped anywhere else, undo is taken up by the next one and no entry's
copy is gone; stopped there, an entry's copy is. -/
theorem undo_resumed (toml : Toml C V) (hd : d.Stocked toml) (n : Nat) :
    ((d.undoAt toml n f).undo toml f = d.undo toml f ∧ (d.undoAt toml n f).Safe) ↔
      ¬ CopyRemoved n (d.mine f) := by
  induction hmine : d.mine f generalizing d n with
  | nil =>
    have hat : d.undoAt toml n f = d := by
      rw [undoAt, hmine]
      exact undoLoopAt_nil toml _ _ _ d
    rw [hat]
    refine iff_of_true ⟨rfl, hd.safe⟩ ?_
    rintro ⟨-, e, path, he, -⟩
    simp at he
  | cons e todo ih =>
    obtain ⟨d₁, d₃, hone, hd₃, hmine₃, hothers₃, hstocked₃, hundo, hloop⟩ := undo_turn toml hd hmine
    obtain ⟨r, hr, hr₁⟩ := map_eq_some_iff.mp hone
    obtain ⟨hrecord, hcopies⟩ := restoreOne_frame hr
    obtain ⟨hrecord₁, -, -⟩ := undoOne_frame hone
    match n with
    | 0 =>
      have hat : d.undoAt toml 0 f = d := by rw [undoAt, undoLoopAt]
      rw [hat]
      exact iff_of_true ⟨rfl, hd.safe⟩ (fun h => by simp [CopyRemoved] at h)
    | 1 =>
      have hat : d.undoAt toml 1 f = r := by
        rw [undoAt, hmine, undoLoopAt, hr]
        rfl
      rw [hat]
      refine iff_of_true ⟨undo_restored hd hmine hr hrecord hcopies, ?_⟩
        (fun h => by simp [CopyRemoved] at h)
      intro e' he' path hpath
      rw [hcopies]
      exact hd.safe e' (hrecord ▸ he') path hpath
    | 2 =>
      have hat : d.undoAt toml 2 f = d₁ := by
        rw [undoAt, hmine, undoLoopAt, hone]
        rfl
      rw [hat]
      by_cases hkept : ∃ path, e.change = .file path true
      · obtain ⟨path, hpath⟩ := hkept
        have hmem : e ∈ d.record := by
          have hin : e ∈ d.mine f := by rw [hmine]; exact .head _
          exact (mem_filter.mp (mem_reverse.mp hin)).1
        refine iff_of_false (fun h => ?_) (not_not.mpr ⟨rfl, e, path, rfl, hpath⟩)
        refine h.2 e (hrecord₁ ▸ hmem) path hpath ?_
        rw [← hr₁, hpath]
        simp [dropCopy]
      have hsame : d₁ = r := by
        rw [← hr₁]
        cases hc : e.change with
        | file path backup =>
          cases backup with
          | true => exact absurd ⟨path, hc⟩ hkept
          | false => rfl
        | configValue file table key previous => rfl
      rw [hsame]
      refine iff_of_true ⟨undo_restored hd hmine hr hrecord hcopies, ?_⟩ ?_
      · intro e' he' path hpath
        rw [hcopies]
        exact hd.safe e' (hrecord ▸ he') path hpath
      rintro ⟨-, e', path, he', hpath⟩
      obtain rfl : e = e' := by simpa using he'
      exact hkept ⟨path, hpath⟩
    | n + 3 =>
      have hstop : CopyRemoved (n + 3) (e :: todo) ↔ CopyRemoved n todo := by
        unfold CopyRemoved
        rw [Nat.add_mod_right, Nat.add_div_right n (by decide)]
        simp
      rw [hstop, hloop, hundo]
      exact ih hstocked₃ n hmine₃

theorem undoAt_copies (toml : Toml C V) (hd : d.Stocked toml) (n : Nat) (p : String) :
    (d.undoAt toml n f).copies p = none ∨ (d.undoAt toml n f).copies p = d.copies p := by
  induction hmine : d.mine f generalizing d n with
  | nil =>
    rw [undoAt, hmine, undoLoopAt_nil]
    exact .inr rfl
  | cons e todo ih =>
    obtain ⟨d₁, d₃, hone, hd₃, hmine₃, -, hstocked₃, -, hloop⟩ := undo_turn toml hd hmine
    obtain ⟨r, hr, -⟩ := map_eq_some_iff.mp hone
    obtain ⟨-, -, hcopies₁⟩ := undoOne_frame hone
    match n with
    | 0 =>
      rw [undoAt, undoLoopAt]
      exact .inr rfl
    | 1 =>
      rw [undoAt, hmine, undoLoopAt, hr, getD_some, (restoreOne_frame hr).2]
      exact .inr rfl
    | 2 =>
      rw [undoAt, hmine, undoLoopAt, hone]
      exact hcopies₁ p
    | n + 3 =>
      rw [hloop]
      have hcopies₃ : d₃.copies p = d₁.copies p := by rw [hd₃]
      obtain hnone | heq := ih hstocked₃ n hmine₃
      · exact .inl hnone
      · rw [heq, hcopies₃]
        exact hcopies₁ p

/-! ## Writing a file -/

theorem isFile_eq_some :
    e.isFile f path = some b ↔ e.feature = f ∧ e.change = .file path b := by
  unfold Entry.isFile
  cases hc : e.change with
  | file q b' =>
    dsimp only
    split_ifs with h
    · simp [h]
    simp only [Change.file.injEq, false_iff, not_and]
    intro hf hq
    exact absurd ⟨hf, hq⟩ h
  | configValue file table key previous => simp

theorem recorded_eq_some (h : recorded d.record f path = some b) :
    ∃ e ∈ d.record, e.feature = f ∧ e.change = .file path b := by
  obtain ⟨e, he, hfile⟩ := exists_of_findSome?_eq_some h
  exact ⟨e, he, isFile_eq_some.mp hfile⟩

theorem recorded_eq_none (h : recorded d.record f path = none)
    (he : e ∈ d.record) (hf : e.feature = f) : e.change ≠ .file path b := by
  intro hc
  have hnone := findSome?_eq_none_iff.mp h e he
  rw [isFile_eq_some.mpr ⟨hf, hc⟩] at hnone
  exact absurd hnone (by simp)

variable [DecidableEq C] {path : String} {contents : C} {ours : C → Bool}

theorem healBackup_of_safe (hd : d.Safe) (f path : String) (contents : C) (ours : C → Bool) :
    d.healBackup f path contents ours = d := by
  refine if_neg ?_
  rintro ⟨hrec, hnone⟩
  obtain ⟨e, he, -, hc⟩ := recorded_eq_some hrec
  exact hd e he path hc hnone

theorem record_writeFileAt (hn : ¬ 4 ≤ n) (d : Disk C V) (f path : String)
    (contents : C) (ours : C → Bool) :
    (d.writeFileAt n f path contents ours).record = d.record :=
  if_neg hn

theorem files_writeFileAt (hn : 3 ≤ n) (d : Disk C V) (f path : String) (contents : C)
    (ours : C → Bool) :
    (d.writeFileAt n f path contents ours).files = Function.update d.files path (some contents) :=
  if_pos hn

theorem writeFileAt_new (hd : d.Safe) (h : recorded d.record f path = none) (n : Nat)
    (contents : C) (ours : C → Bool) :
    d.writeFileAt n f path contents ours =
      { files := if 3 ≤ n then Function.update d.files path (some contents) else d.files
        copies :=
          if 2 ≤ n ∧ (d.files path).isSome then Function.update d.copies path (d.files path)
          else d.copies
        record :=
          if 4 ≤ n then d.record ++ [{ feature := f, change := .file path (d.files path).isSome }]
          else d.record } := by
  have hadd (b : Bool) : Entry.addTo ({ feature := f, change := .file path b } : Entry V) d.record =
      d.record ++ [{ feature := f, change := .file path b }] := by
    refine if_neg ?_
    simp only [List.any_eq_true, Bool.and_eq_true, decide_eq_true_eq, not_exists, not_and]
    intro e he hf hsame
    cases hc : e.change with
    | file q b' =>
      rw [hc] at hsame
      have hq : q = path := by simpa [Change.same] using hsame
      exact recorded_eq_none h he hf (hq ▸ hc)
    | configValue file table key previous =>
      rw [hc] at hsame
      exact absurd hsame (by simp [Change.same])
  simp only [writeFileAt, healBackup_of_safe hd, h, hadd, isSome_none, Bool.not_false,
    Bool.true_and, Disk.mk.injEq, true_and, and_true]
  split_ifs <;> simp_all

theorem copies_writeFile (hd : d.Safe) (h : recorded d.record f path = none) {old : C}
    (hold : d.files path = some old) {contents : C} {ours : C → Bool} :
    (d.writeFile f path contents ours).copies = Function.update d.copies path (some old) := by
  rw [writeFile, writeFileAt_new hd h, hold]
  simp

theorem writeFileAt_again (hd : d.Safe) (h : recorded d.record f path = some b)
    (n : Nat) (contents : C) (ours : C → Bool) :
    d.writeFileAt n f path contents ours =
      { d with files := if 3 ≤ n then Function.update d.files path (some contents)
          else d.files } := by
  have hadd (b' : Bool) :
      Entry.addTo ({ feature := f, change := .file path b' } : Entry V) d.record = d.record := by
    refine if_pos ?_
    obtain ⟨e, he, hf, hc⟩ := recorded_eq_some h
    exact List.any_eq_true.mpr ⟨e, he, by simp [hf, hc, Change.same]⟩
  simp only [writeFileAt, healBackup_of_safe hd, h, hadd, isSome_some, Bool.not_true,
    Bool.false_and]
  simp

/-! ## What undo gives back -/

omit [DecidableEq C] in
theorem mine_unique (hd : d.Stocked toml) (f : String) :
    ((d.mine f).filterMap (·.change.filePath)).Nodup :=
  (((reverse_perm _).filterMap _).nodup_iff).mpr
    (hd.unique.sublist (filter_sublist.filterMap _))

omit [DecidableEq C] in
theorem files_undo (toml : Toml C V) (hd : d.Stocked toml) (p : String) :
    (d.undo toml f).files p = onAll toml p (d.copies p) (d.mine f) (d.files p) := by
  induction hmine : d.mine f generalizing d with
  | nil =>
    rw [undo_of_mine_nil toml hmine]
    rfl
  | cons e todo ih =>
    obtain ⟨d₁, d₃, hone, hd₃, hmine₃, -, hstocked₃, hundo, -⟩ := undo_turn toml hd hmine
    have hfiles : d₃.files p = e.change.on toml p (d.copies p) (d.files p) := by
      rw [hd₃]
      exact files_undoOne hone p
    rw [hundo, ih hstocked₃ hmine₃, onAll_cons, hfiles]
    refine onAll_copy fun ⟨e', he', hc'⟩ => ?_
    have hne : e.change ≠ .file p true := by
      intro heq
      have hnodup := mine_unique hd f
      rw [hmine, filterMap_cons_some (b := p) (by rw [heq]; rfl), nodup_cons] at hnodup
      exact hnodup.1 (mem_filterMap.mpr ⟨e', he', by rw [hc']; rfl⟩)
    rw [hd₃]
    exact (undoOne_frame hone).2.1 p hne

omit [DecidableEq C] in
theorem undo_congr (toml : Toml C V) (hd : d.Stocked toml) (hd' : d'.Stocked toml)
    (hmine : d'.mine f = d.mine f) (hfiles : d'.files = d.files)
    (hcopies : ∀ e ∈ d.mine f, ∀ q, e.change = .file q true → d'.copies q = d.copies q) :
    (d'.undo toml f).files = (d.undo toml f).files := by
  funext p
  rw [files_undo toml hd, files_undo toml hd', hmine, hfiles]
  exact onAll_copy fun ⟨e, he, hc⟩ => hcopies e he p hc

omit [DecidableEq C] in
theorem Stocked.put (hd : d.Stocked toml) (path : String) (x : Option C) :
    (d.put path x).Stocked toml :=
  ⟨hd.safe, hd.unique, hd.found⟩

omit [DecidableEq C] in
/-- A recorded file's contents make no difference to undo. -/
theorem undo_overwrite (toml : Toml C V) (hd : d.Stocked toml) (x : Option C)
    (h : ∃ e ∈ d.mine f, e.change = .file path b) :
    ((d.put path x).undo toml f).files = (d.undo toml f).files := by
  funext p
  rw [files_undo toml hd, files_undo toml (hd.put path x)]
  by_cases hp : p = path
  · subst hp
    exact onAll_overwrite h _ _
  have hfiles : (d.put path x).files p = d.files p := update_of_ne hp _ _
  rw [hfiles]
  rfl

omit [DecidableEq C] in
theorem undo_isSome (toml : Toml C V) (hd : d.Stocked toml)
    (h : ∀ e ∈ d.mine f, ∀ b, e.change ≠ .file path b) :
    ((d.undo toml f).files path).isSome = (d.files path).isSome := by
  rw [files_undo toml hd]
  exact isSome_onAll h

/-- No other feature writes the file. -/
def Owns (d : Disk C V) (f path : String) : Prop :=
  ∀ e ∈ d.record, e.change.filePath = some path → e.feature = f

omit [DecidableEq C] in
theorem Owns.not_mem (ho : d.Owns f path) (h : recorded d.record f path = none) :
    path ∉ d.record.filterMap (·.change.filePath) := by
  intro hmem
  obtain ⟨e, he, hpath⟩ := mem_filterMap.mp hmem
  cases hc : e.change with
  | file q b =>
    have hq : q = path := by simpa [hc, Change.filePath] using hpath
    exact recorded_eq_none h he (ho e he hpath) (hq ▸ hc)
  | configValue file table key previous => exact absurd hpath (by simp [hc, Change.filePath])

omit [DecidableEq C] in
/-- A copy of a file that is not recorded strands no entry. -/
theorem Safe.update_copy (hd : d.Safe) (ho : d.Owns f path) (h : recorded d.record f path = none)
    (x : Option C) (files : String → Option C) :
    Safe { d with files, copies := Function.update d.copies path x } := by
  intro e he q hq
  have hne : q ≠ path := by
    rintro rfl
    exact ho.not_mem h (mem_filterMap.mpr ⟨e, he, by rw [hq]; rfl⟩)
  change Function.update d.copies path x q ≠ none
  rw [update_of_ne hne]
  exact hd e he q hq

theorem writeFile_stocked (hd : d.Stocked toml) (ho : d.Owns f path)
    (h : recorded d.record f path = none) (contents : C) (ours : C → Bool) :
    (d.writeFile f path contents ours).Stocked toml := by
  have hnot := ho.not_mem h
  rw [writeFile, writeFileAt_new hd.safe h]
  refine ⟨fun e he q hq => ?_, ?_, fun e he => ?_⟩
  · simp only [le_refl, if_true, mem_append, mem_singleton] at he
    obtain he | rfl := he
    · have hne : q ≠ path := by
        rintro rfl
        exact hnot (mem_filterMap.mpr ⟨e, he, by rw [hq]; rfl⟩)
      have hsafe := hd.safe e he q hq
      dsimp only
      split_ifs
      · rwa [update_of_ne hne]
      · exact hsafe
    obtain ⟨rfl, hsome⟩ : path = q ∧ (d.files path).isSome = true := by simpa using hq
    simp only [hsome]
    simpa [isSome_iff_ne_none] using hsome
  · simp only [le_refl, if_true, filterMap_append, filterMap_cons, filterMap_nil,
      Change.filePath]
    exact nodup_snoc hd.unique hnot
  · simp only [le_refl, if_true, mem_append, mem_singleton] at he
    obtain he | rfl := he
    · exact hd.found e he
    · trivial

/-- A file written and undone is as undo would have left it before. -/
theorem writeFile_undone (toml : Toml C V) (hd : d.Stocked toml) (ho : d.Owns f path) (contents : C)
    (ours : C → Bool) :
    ((d.writeFile f path contents ours).undo toml f).files = (d.undo toml f).files := by
  cases hrec : recorded d.record f path with
  | some b =>
    obtain ⟨e, he, hf, hc⟩ := recorded_eq_some hrec
    have hmem : e ∈ d.mine f := by simpa [mine, hf] using he
    rw [writeFile, writeFileAt_again hd.safe hrec, if_pos (by decide)]
    exact undo_overwrite toml hd (some contents) ⟨e, hmem, hc⟩
  | none =>
    have hstocked := writeFile_stocked hd ho hrec contents ours
    have hmine : (d.writeFile f path contents ours).mine f =
        { feature := f, change := .file path (d.files path).isSome } :: d.mine f := by
      rw [writeFile, writeFileAt_new hd.safe hrec]
      simp [mine]
    obtain ⟨d₁, d₃, hone, hd₃, hmine₃, -, hstocked₃, hundo, -⟩ := undo_turn toml hstocked hmine
    have hback : d₁.files = d.files ∧ ∀ q, q ≠ path → d₁.copies q = d.copies q := by
      rw [writeFile, writeFileAt_new hd.safe hrec] at hone
      obtain ⟨r, hr, rfl⟩ := map_eq_some_iff.mp hone
      cases hfile : d.files path with
      | some old =>
        simp only [hfile, isSome_some] at hr ⊢
        obtain ⟨c, hcopy, rfl⟩ := map_eq_some_iff.mp hr
        have hc : c = old := by simpa using hcopy.symm
        refine ⟨?_, fun q hq => by simp [dropCopy, Disk.put, hq]⟩
        simp [dropCopy, Disk.put, hc, ← hfile]
      | none =>
        simp only [hfile, isSome_none] at hr ⊢
        cases hr
        refine ⟨?_, fun q _ => by simp [dropCopy, Disk.put]⟩
        simp [dropCopy, Disk.put, ← hfile]
    rw [hundo]
    refine undo_congr toml hd hstocked₃ hmine₃ (by rw [hd₃, hback.1]) fun e he q hq => ?_
    rw [hd₃]
    refine hback.2 q ?_
    rintro rfl
    have hin := (mem_filter.mp (mem_reverse.mp he)).1
    exact recorded_eq_none hrec hin (feature_of_mem_mine he) hq

/-! ## Writing a file, interrupted -/

/-- The place where setup must not be stopped: a file that is not recorded
yet has other contents, and its entry is not saved. -/
def Unrecorded (n : Nat) (d : Disk C V) (f path : String) (contents : C) : Prop :=
  n = 3 ∧ recorded d.record f path = none ∧ d.files path ≠ some contents

theorem writeFileAt_last (hd : d.Safe) (hrec : recorded d.record f path = none) (hn : 4 ≤ n) :
    d.writeFileAt n f path contents ours = d.writeFile f path contents ours := by
  rw [writeFile, writeFileAt_new hd hrec, writeFileAt_new hd hrec]
  simp [hn, (by omega : 3 ≤ n), (by omega : 2 ≤ n)]

theorem writeFileAt_safe (hd : d.Stocked toml) (ho : d.Owns f path) (n : Nat) (contents : C)
    (ours : C → Bool) : (d.writeFileAt n f path contents ours).Safe := by
  cases hrec : recorded d.record f path with
  | some b =>
    rw [writeFileAt_again hd.safe hrec]
    exact hd.safe
  | none =>
    by_cases hn : 4 ≤ n
    · rw [writeFileAt_last hd.safe hrec hn]
      exact (writeFile_stocked hd ho hrec contents ours).safe
    rw [writeFileAt_new hd.safe hrec, if_neg hn]
    by_cases hkeep : 2 ≤ n ∧ (d.files path).isSome = true
    · rw [if_pos hkeep]
      exact hd.safe.update_copy ho hrec _ _
    · rw [if_neg hkeep]
      exact hd.safe

/-- Stopped anywhere else, a run that is repeated ends as if it had not been
stopped. -/
theorem writeFile_resumed (hd : d.Stocked toml) (ho : d.Owns f path)
    (hn : ¬ Unrecorded n d f path contents) :
    (d.writeFileAt n f path contents ours).writeFile f path contents ours =
      d.writeFile f path contents ours := by
  have hsafe := writeFileAt_safe hd ho n contents ours
  cases hrec : recorded d.record f path with
  | some b =>
    have hrec' : recorded (d.writeFileAt n f path contents ours).record f path = some b := by
      rw [writeFileAt_again hd.safe hrec]
      exact hrec
    rw [writeFile, writeFileAt_again hsafe hrec', writeFile, writeFileAt_again hd.safe hrec,
      writeFileAt_again hd.safe hrec]
    simp only [Nat.reduceLeDiff, if_true]
    split_ifs <;> simp
  | none =>
    by_cases hlast : 4 ≤ n
    · have heq : d.writeFileAt n f path contents ours = d.writeFile f path contents ours :=
        writeFileAt_last hd.safe hrec hlast
      have hrec' : ∃ b, recorded (d.writeFile f path contents ours).record f path = some b := by
        have hrecord : (d.writeFile f path contents ours).record =
            d.record ++ [{ feature := f, change := .file path (d.files path).isSome }] := by
          rw [writeFile, writeFileAt_new hd.safe hrec]
          simp
        rw [hrecord, recorded, findSome?_append, ← recorded, hrec, none_or]
        exact ⟨(d.files path).isSome, by simp [Entry.isFile]⟩
      obtain ⟨b, hrec'⟩ := hrec'
      rw [heq] at hsafe ⊢
      conv_lhs => rw [writeFile, writeFileAt_again hsafe hrec']
      rw [writeFile, writeFileAt_new hd.safe hrec]
      simp
    have hrec' : recorded (d.writeFileAt n f path contents ours).record f path = none := by
      rw [writeFileAt_new hd.safe hrec, if_neg hlast]
      exact hrec
    have hfiles : (d.writeFileAt n f path contents ours).files = d.files := by
      rw [writeFileAt_new hd.safe hrec]
      by_cases h3 : 3 ≤ n
      · have hsome : d.files path = some contents := by
          by_contra hne
          exact hn ⟨by omega, hrec, hne⟩
        rw [if_pos h3, ← hsome, update_eq_self]
      · rw [if_neg h3]
    rw [writeFile, writeFileAt_new hsafe hrec', hfiles, writeFile, writeFileAt_new hd.safe hrec,
      writeFileAt_new hd.safe hrec]
    simp only [hlast, if_false, Disk.mk.injEq]
    refine ⟨trivial, ?_, trivial⟩
    split_ifs <;> simp_all

/-- An interrupted run of `write_file` and its save, or of `undo`, loses
nothing: run again, and undone, every file is as undo would have left it
before the run, the copies kept are those of a run that was not
interrupted, and no entry's copy is gone. For `write_file` exactly unless
it was stopped between writing a new file's contents and saving its entry;
for `undo` exactly unless between removing a copy and saving the record. -/
theorem interrupted_loses_nothing (toml : Toml C V) (hd : d.Stocked toml) (f : String) :
    (∀ n path contents ours, d.Owns f path →
      ((((d.writeFileAt n f path contents ours).writeFile f path contents ours).undo toml f).files =
          (d.undo toml f).files ∧
        ((d.writeFileAt n f path contents ours).writeFile f path contents ours).copies =
          (d.writeFile f path contents ours).copies ∧
        (d.writeFileAt n f path contents ours).Safe ↔ ¬ Unrecorded n d f path contents)) ∧
    ∀ n, (∀ p, (d.undoAt toml n f).copies p = none ∨
        (d.undoAt toml n f).copies p = d.copies p) ∧
      ((d.undoAt toml n f).undo toml f = d.undo toml f ∧ (d.undoAt toml n f).Safe ↔
        ¬ CopyRemoved n (d.mine f)) := by
  refine ⟨fun n path contents ours ho => ⟨?_, fun hn => ?_⟩, fun n =>
    ⟨undoAt_copies toml hd n, undo_resumed toml hd n⟩⟩
  · rintro ⟨hfiles, hcopies, -⟩ ⟨rfl, hrec, hne⟩
    have hsafe := writeFileAt_safe hd ho 3 contents ours
    have hrecord := record_writeFileAt (by decide : ¬ 4 ≤ 3) d f path contents ours
    have hrec' : recorded (d.writeFileAt 3 f path contents ours).record f path = none := by
      rw [hrecord]
      exact hrec
    have hpath : (d.writeFileAt 3 f path contents ours).files path = some contents := by
      rw [files_writeFileAt le_rfl, update_self]
    cases hfile : d.files path with
    | some old =>
      -- the rerun keeps setup's own output
      have hkept := congrFun hcopies path
      rw [copies_writeFile hsafe hrec' hpath, copies_writeFile hd.safe hrec hfile,
        update_self, update_self] at hkept
      exact hne (hfile.trans hkept.symm)
    | none =>
      -- the rerun takes setup's own output for what was there
      have hstocked' : (d.writeFileAt 3 f path contents ours).Stocked toml := by
        refine ⟨hsafe, ?_, ?_⟩
        · rw [hrecord]
          exact hd.unique
        · rw [hrecord]
          exact hd.found
      have ho' : (d.writeFileAt 3 f path contents ours).Owns f path := by
        unfold Owns
        rw [hrecord]
        exact ho
      have hundone := writeFile_undone toml hstocked' ho' contents ours
      have hmine : ∀ {d : Disk C V}, recorded d.record f path = none →
          ∀ e ∈ d.mine f, ∀ b, e.change ≠ .file path b := fun h e he b =>
        recorded_eq_none h (mem_filter.mp (mem_reverse.mp he)).1 (feature_of_mem_mine he)
      have hthere := undo_isSome toml hstocked' (hmine hrec')
      have hgone := undo_isSome toml hd (hmine hrec)
      rw [← hundone, hfiles, hgone, hpath, hfile] at hthere
      exact Bool.noConfusion hthere
  · rw [writeFile_resumed hd ho hn]
    exact ⟨writeFile_undone toml hd ho contents ours, rfl, writeFileAt_safe hd ho n contents ours⟩

/-- Files whose contents are their documents. -/
def plain : Toml (Doc Nat) Nat where
  parse := id
  print := id
  parse_print _ _ := rfl

/-- A disk with the customer's file. -/
def customConf : Disk (Doc Nat) Nat where
  files := fun p => if p = "/etc/gdm3/custom.conf" then some (.value 1) else none

theorem customConf_stocked : customConf.Stocked plain :=
  ⟨nofun, nodup_nil, nofun⟩

/-- Setup's own file in its place, after `n` operations. -/
def ownConf (n : Nat) (d : Disk (Doc Nat) Nat) : Disk (Doc Nat) Nat :=
  d.writeFileAt n "desktop" "/etc/gdm3/custom.conf" (.value 2) fun _ => false

/-- Stopped after the copy, run again and undone; and an undo stopped after
the file was put back, and run again. -/
theorem interrupted_loses_nothing_copied :
    ((ownConf 4 (ownConf 2 customConf)).undo plain "desktop").files = customConf.files ∧
      ((ownConf 4 customConf).undoAt plain 1 "desktop").undo plain "desktop" =
        (ownConf 4 customConf).undo plain "desktop" := by
  have hstocked : (ownConf 4 customConf).Stocked plain :=
    writeFile_stocked customConf_stocked nofun rfl _ _
  have hrun := (interrupted_loses_nothing plain customConf_stocked "desktop").1 2
    "/etc/gdm3/custom.conf" (.value 2) (fun _ => false) nofun
  have hundo := ((interrupted_loses_nothing plain hstocked "desktop").2 1).2
  exact ⟨(hrun.mpr nofun).1, (hundo.mpr nofun).1⟩

/-- Stopped after the file was written, run again and undone, the file is
setup's; and an undo stopped after the copy was removed leaves an entry
without one. -/
theorem own_output_restored :
    ((ownConf 4 (ownConf 3 customConf)).undo plain "desktop").files "/etc/gdm3/custom.conf" =
        some (.value 2) ∧
      ∃ e ∈ ((ownConf 4 customConf).undoAt plain 2 "desktop").record,
        e.change = .file "/etc/gdm3/custom.conf" true ∧
        ((ownConf 4 customConf).undoAt plain 2 "desktop").copies "/etc/gdm3/custom.conf" = none :=
  ⟨by decide +kernel, _, .head _, rfl, by decide +kernel⟩

end Disk

end Fjarr.Setup
