/-
Fjarr.Setup.Undo — setup runs and undos of several features, in any order.

Each path is written as a whole by one feature, its owner; any feature sets
keys of the configuration, which may itself be some feature's file. What
the record gives back of a file is its copy, or nothing (`given`); of the
configuration it is that with the keys restored that were set before the
configuration was first written as a whole (`before`). `Kept` says that this
is what was there at the start.

Undo takes a feature's changes out of the middle of the record. A whole file
and a key of it do not commute, nor do two changes of one key.
-/
import Fjarr.Setup.Interrupted
import Fjarr.Lib.Maps

namespace Fjarr.Setup

open Lib List Option Function

variable {C V : Type}

/-! ## Keys -/

/-- The full path of a capability's key. -/
def keyFull (table key : List Char) : List (List Char) := keyPath table key ++ [keyLast key]

theorem keyFull_inj {t t' k k' : List Char} (h : keyFull t k = keyFull t' k') :
    t = t' ∧ k = k' := by
  have hparts (k : List Char) :
      (k.splitOn '.').dropLast ++ [(k.splitOn '.').getLastD []] = k.splitOn '.' := by
    have hne : k.splitOn '.' ≠ [] := splitOnP_ne_nil _ _
    rw [getLastD_eq_getLast?, getLast?_eq_some_getLast hne, getD_some,
      dropLast_append_getLast hne]
  simp only [keyFull, keyPath, keyLast, cons_append, List.cons.injEq, true_and, hparts] at h
  refine ⟨h.1, ?_⟩
  calc k = ['.'].intercalate (k.splitOn '.') := (intercalate_splitOn '.').symm
    _ = ['.'].intercalate (k'.splitOn '.') := by rw [h.2]
    _ = k' := intercalate_splitOn '.'

/-- The key of the file that a change is about. -/
def Change.keyOf (file : String) : Change V → Option (List (List Char))
  | .file .. => none
  | .configValue f table key _ => if f = file then some (keyFull table key) else none

/-- The value a change found. -/
def Change.former : Change V → Option V
  | .configValue _ _ _ (some (.value a)) => some a
  | _ => none

/-! ## The system -/

inductive Act (C V : Type) where
  | writeFile (feature path : String) (contents : C) (ours : C → Bool)
  | setValue (feature : String) (table key : List Char) (new : V)
  | undo (feature : String)

section Runs

variable [DecidableEq C] (toml : Toml C V) (conf : String)
  (owner : String → String)

/-- A file is written by its owner. -/
def setupStep (d : Disk C V) : Act C V → Option (Disk C V)
  | .writeFile f path contents ours =>
    if owner path = f then some (d.writeFile f path contents ours) else none
  | .setValue f table key new => d.setValue toml f conf table key new
  | .undo f => some (d.undo toml f)

def setup (files : String → Option C) : System (Disk C V) (Act C V) where
  init := { files }
  step := setupStep toml conf owner

end Runs

/-- One of the changes is the configuration as a whole, the other a key of it. -/
def Change.clash (conf : String) (a b : Change V) : Bool :=
  (a.filePath = some conf && (b.keyOf conf).isSome) ||
    ((a.keyOf conf).isSome && b.filePath = some conf)

/-- A key is set where no table stands, while no other feature has it
recorded; and what a feature has recorded is undone while no other feature's
change that clashes with it was recorded later. -/
def Orderly (toml : Toml C V) (conf : String) (d : Disk C V) : Act C V → Prop
  | .writeFile .. => True
  | .setValue f table key _ =>
    (d.files conf).bind (fun c => (toml.parse c).find (keyFull table key)) ≠ some .table ∧
      ∀ e ∈ d.record, e.change.keyOf conf = some (keyFull table key) → e.feature = f
  | .undo f => d.record.Pairwise fun e e' =>
      e.feature = f → e'.feature ≠ f → e.change.clash conf e'.change = false

instance [DecidableEq V] (toml : Toml C V) (conf : String) (d : Disk C V) :
    ∀ a : Act C V, Decidable (Orderly toml conf d a)
  | .writeFile .. => isTrue trivial
  | .setValue .. => inferInstanceAs (Decidable (_ ≠ _ ∧ ∀ e ∈ d.record, _ → _))
  | .undo _ => inferInstanceAs (Decidable (d.record.Pairwise _))

namespace Disk

variable {toml : Toml C V} {d d' : Disk C V} {conf f p : String}

/-! ## What the record gives back -/

/-- The values of a configuration. -/
def values (toml : Toml C V) (x : Option C) (path : List (List Char)) : Option V :=
  x.bind fun c => (toml.parse c).valueAt path

/-- What undoing gives back of a file as a whole. -/
def given (owner : String → String) (d : Disk C V) (p : String) : Option C :=
  match recorded d.record (owner p) p with
  | some true => d.copies p
  | some false => none
  | none => d.files p

/-- The entries before that of a file as a whole. -/
def before (conf : String) (record : List (Entry V)) : List (Entry V) :=
  record.takeWhile fun e => e.change.filePath ≠ some conf

/-- The configuration `x`, with the keys of the entries restored, has the
values `x₀` had. -/
structure Restores (toml : Toml C V) (conf : String) (entries : Entry V → Prop) (x x₀ : Option C) :
    Prop where
  isSome : x.isSome = x₀.isSome
  /-- A key that was set is there. -/
  present : ∀ e, entries e → ∀ k, e.change.keyOf conf = some k → values toml x k ≠ none
  /-- The entry has the value it found. -/
  former : ∀ e, entries e → ∀ k, e.change.keyOf conf = some k →
    values toml x₀ k = e.change.former
  rest : ∀ k, (∀ e, entries e → e.change.keyOf conf ≠ some k) →
    values toml x₀ k = values toml x k

structure Kept (toml : Toml C V) (conf : String) (owner : String → String)
    (files : String → Option C) (d : Disk C V) : Prop where
  stocked : d.Stocked toml
  owned : ∀ e ∈ d.record, ∀ p, e.change.filePath = some p → e.feature = owner p
  /-- A key is one of the configuration, and a value or nothing was there. -/
  valued : ∀ e ∈ d.record, ∀ file table key previous,
    e.change = .configValue file table key previous →
      file = conf ∧ previous = e.change.former.map .value
  keys : (d.record.filterMap (·.change.keyOf conf)).Nodup
  others : ∀ p, p ≠ conf → d.given owner p = files p
  config : Restores toml conf (· ∈ before conf d.record) (d.given owner conf) (files conf)

/-! ## Entries -/

theorem filePath_eq_some {change : Change V} :
    change.filePath = some p ↔ ∃ b, change = .file p b := by
  cases change <;> simp [Change.filePath]

theorem keyOf_eq_some {change : Change V} {k : List (List Char)} :
    change.keyOf conf = some k ↔ ∃ table key previous,
      change = .configValue conf table key previous ∧ keyFull table key = k := by
  cases change with
  | file q b => simp [Change.keyOf]
  | configValue file table key previous =>
    simp only [Change.keyOf, ite_none_right_eq_some, some.injEq,
      Change.configValue.injEq]
    constructor
    · rintro ⟨rfl, rfl⟩
      exact ⟨table, key, previous, ⟨rfl, rfl, rfl, rfl⟩, rfl⟩
    · rintro ⟨_, _, _, ⟨rfl, rfl, rfl, rfl⟩, rfl⟩
      exact ⟨rfl, rfl⟩

theorem before_eq_self {record : List (Entry V)}
    (h : ∀ e ∈ record, e.change.filePath ≠ some conf) : before conf record = record :=
  takeWhile_eq_self_iff.mpr (by simpa using h)

theorem before_split {older newer : List (Entry V)} {e : Entry V}
    (h : ∀ e ∈ older, e.change.filePath ≠ some conf) (he : e.change.filePath = some conf) :
    before conf (older ++ e :: newer) = older := by
  rw [before, takeWhile_append_of_pos (by simpa using h),
    takeWhile_cons_of_neg (by simpa using he), append_nil]

theorem mem_before_append {record new : List (Entry V)} {e : Entry V} {k : List (List Char)}
    (hnew : ∀ e ∈ new, e.change.keyOf conf = none) (hk : e.change.keyOf conf = some k) :
    e ∈ before conf (record ++ new) ↔ e ∈ before conf record := by
  have hnot : e ∉ new := fun he => by simp [hnew e he] at hk
  rw [before, takeWhile_append]
  split_ifs with hlen
  · rw [before, (List.takeWhile_prefix _).eq_of_length hlen, mem_append, or_iff_left]
    exact fun he => hnot ((takeWhile_sublist _).subset he)
  · rfl

/-! ## What is given back of a file -/

section Given

variable {owner : String → String}

theorem given_of_not_mem (h : ∀ e ∈ d.record, e.change.filePath ≠ some p) :
    d.given owner p = d.files p := by
  have hnone : recorded d.record (owner p) p = none := by
    refine findSome?_eq_none_iff.mpr fun e he => eq_none_iff_forall_ne_some.mpr ?_
    intro b hb
    exact h e he (filePath_eq_some.mpr ⟨b, (isFile_eq_some.mp hb).2⟩)
  rw [given, hnone]

theorem given_of_mem (hd : d.Stocked toml) {e : Entry V} (he : e ∈ d.record)
    (hf : e.feature = owner p) {b : Bool} (hc : e.change = .file p b) :
    d.given owner p = if b then d.copies p else none := by
  have hsome : recorded d.record (owner p) p = some b := by
    cases hrec : recorded d.record (owner p) p with
    | none => exact absurd hc (recorded_eq_none hrec he hf)
    | some b' =>
      obtain ⟨e', he', -, hc'⟩ := recorded_eq_some hrec
      obtain rfl := Maps.eq_of_nodup_filterMap hd.unique he he' (c := p) (by rw [hc]; rfl)
        (by rw [hc']; rfl)
      exact congrArg some (Change.file.inj (hc'.symm.trans hc)).2
  rw [given, hsome]
  cases b <;> rfl

end Given

/-! ## What is given back of the configuration -/

section Config

variable {entries entries' : Entry V → Prop} {x x₀ : Option C}

theorem Restores.congr (h : Restores toml conf entries x x₀)
    (heq : ∀ e k, e.change.keyOf conf = some k → (entries' e ↔ entries e)) :
    Restores toml conf entries' x x₀ where
  isSome := h.isSome
  present := fun e he k hk => h.present e ((heq e k hk).mp he) k hk
  former := fun e he k hk => h.former e ((heq e k hk).mp he) k hk
  rest := fun k hk => h.rest k fun e he hkey => hk e ((heq e k hkey).mpr he) hkey

/-- A key is set: it is one of the entries', or a new entry has what it found. -/
theorem Restores.set {c : C} {table key : List Char} {new : V} {r : Doc V × Option (Doc V)}
    (h : Restores toml conf entries (some c) x₀)
    (hset : setCapValue table key new (toml.parse c) = some r)
    (hnot : (toml.parse c).find (keyFull table key) ≠ some .table)
    (hentries : ∀ e, entries e → entries' e)
    (hnew : ∃ e, entries' e ∧ e.change.keyOf conf = some (keyFull table key))
    (hfound : ∀ e, entries' e → entries e ∨
      e.change = .configValue conf table key r.2 ∧
        ∀ e, entries e → e.change.keyOf conf ≠ some (keyFull table key)) :
    Restores toml conf entries' (some (toml.print r.1)) x₀ := by
  have hvalues : ∀ k, values toml (some (toml.print r.1)) k =
      if k = keyFull table key then some new else values toml (some c) k := by
    intro k
    simp only [values, bind_some, toml.parse_print _ (.set (.read c) hset)]
    exact TableTree.valueAt_setAt hset hnot k
  refine ⟨h.isSome, fun e he k hk => ?_, fun e he k hk => ?_, fun k hk => ?_⟩
  · rw [hvalues]
    split_ifs with hkey
    · exact some_ne_none new
    obtain he | ⟨hc, -⟩ := hfound e he
    · exact h.present e he k hk
    · rw [hc, Change.keyOf, if_pos rfl, some.injEq] at hk
      exact absurd hk.symm hkey
  · obtain he | ⟨hc, hfirst⟩ := hfound e he
    · exact h.former e he k hk
    obtain rfl : keyFull table key = k := by simpa [hc, Change.keyOf] using hk
    rw [h.rest _ hfirst, hc]
    obtain ⟨hprev, hnone⟩ | ⟨a, hprev, hsome⟩ := TableTree.previous_of_setAt hset hnot
    · rw [hprev]
      exact TableTree.valueAt_eq_none.mpr (.inl hnone)
    · rw [hprev]
      exact TableTree.valueAt_eq_some.mpr hsome
  have hne : k ≠ keyFull table key := by
    rintro rfl
    obtain ⟨e, he, hkey⟩ := hnew
    exact hk e he hkey
  rw [hvalues, if_neg hne]
  exact h.rest k fun e he => hk e (hentries e he)

/-- A key is put back: its entry is done with. -/
theorem Restores.restore (h : Restores toml conf entries x x₀) {e : Entry V} (he : entries e)
    {table key : List Char} (hfound : e.change.Found toml)
    (hc : e.change = .configValue conf table key (e.change.former.map .value))
    (hkeys : ∀ e', entries e' → e'.change.keyOf conf = some (keyFull table key) → e' = e) :
    Restores toml conf (fun e' => entries e' ∧ e' ≠ e)
      (x.map (restoreValue toml table key (e.change.former.map .value))) x₀ := by
  have hkey : e.change.keyOf conf = some (keyFull table key) := by
    rw [hc, Change.keyOf, if_pos rfl]
  have hvalues : ∀ k,
      values toml (x.map (restoreValue toml table key (e.change.former.map .value))) k =
        if k = keyFull table key then e.change.former else values toml x k := by
    intro k
    obtain ⟨a, ha⟩ := ne_none_iff_exists'.mp (h.present e he _ hkey)
    obtain ⟨c, rfl, hval⟩ := bind_eq_some_iff.mp ha
    rw [hc] at hfound
    simp only [values, map_some, bind_some, parse_restoreValue hfound]
    exact TableTree.valueAt_restoreAt e.change.former (TableTree.valueAt_eq_some.mp hval) k
  refine ⟨?_, fun e' he' k hk => ?_, fun e' he' k hk => ?_, fun k hk => ?_⟩
  · rw [isSome_map]
    exact h.isSome
  · have hne : k ≠ keyFull table key := by
      rintro rfl
      exact he'.2 (hkeys e' he'.1 hk)
    rw [hvalues, if_neg hne]
    exact h.present e' he'.1 k hk
  · exact h.former e' he'.1 k hk
  rw [hvalues]
  split_ifs with heq
  · rw [heq]
    exact h.former e he _ hkey
  refine h.rest k fun e' he' hk' => ?_
  by_cases hsame : e' = e
  · rw [hsame, hkey, some.injEq] at hk'
    exact heq hk'.symm
  · exact hk e' ⟨he', hsame⟩ hk'

/-- Keys are put back in turn, among changes of other files. -/
theorem Restores.onAll {copy : Option C} {todo : List (Entry V)}
    (h : Restores toml conf entries x x₀)
    (hkeys : ∀ e e' k, entries e → entries e' → e.change.keyOf conf = some k →
      e'.change.keyOf conf = some k → e' = e)
    (hvalued : ∀ e ∈ todo, ∀ file table key previous,
      e.change = .configValue file table key previous →
        file = conf ∧ previous = e.change.former.map .value)
    (hfound : ∀ e ∈ todo, e.change.Found toml)
    (hfile : ∀ e ∈ todo, e.change.filePath ≠ some conf)
    (hmem : ∀ e ∈ todo, ∀ k, e.change.keyOf conf = some k → entries e)
    (hnodup : (todo.filterMap (·.change.keyOf conf)).Nodup) :
    Restores toml conf (fun e => entries e ∧ e ∉ todo) (onAll toml conf copy todo x) x₀ := by
  induction todo generalizing entries x with
  | nil => exact h.congr fun e k _ => by simp
  | cons e todo ih =>
    rw [onAll_cons]
    cases hc : e.change with
    | file q b =>
      have hq : q ≠ conf := fun hq => hfile e (.head _) (by rw [hc, hq]; rfl)
      have hskip : (Change.file q b : Change V).on toml conf copy x = x := if_neg hq
      rw [hskip]
      have hrest : todo.filterMap (·.change.keyOf conf) =
          (e :: todo).filterMap (·.change.keyOf conf) := by
        rw [filterMap_cons_none (by rw [hc]; rfl)]
      refine (ih h hkeys (fun e he => hvalued e (.tail _ he)) (fun e he => hfound e (.tail _ he))
        (fun e he => hfile e (.tail _ he)) (fun e he => hmem e (.tail _ he))
        (hrest ▸ hnodup)).congr fun e' k hk => ?_
      have hne : e' ≠ e := by
        rintro rfl
        rw [hc] at hk
        exact absurd hk (by simp [Change.keyOf])
      simp [hne]
    | configValue file table key previous =>
      obtain ⟨rfl, hprev⟩ := hvalued e (.head _) file table key previous hc
      have hkey : e.change.keyOf file = some (keyFull table key) := by
        rw [hc, Change.keyOf, if_pos rfl]
      have hin := hmem e (.head _) _ hkey
      rw [filterMap_cons_some (f := fun e : Entry V => e.change.keyOf file) hkey,
        nodup_cons] at hnodup
      have hone := h.restore hin (hfound e (.head _)) (hprev ▸ hc) fun e' he' hk' =>
        hkeys e e' _ hin he' hkey hk'
      have hon : (Change.configValue file table key previous).on toml file copy x =
          x.map (restoreValue toml table key (e.change.former.map .value)) := by
        rw [Change.on, if_pos rfl, hprev]
      rw [hon]
      refine (ih hone (fun a b k ha hb => hkeys a b k ha.1 hb.1)
        (fun e he => hvalued e (.tail _ he)) (fun e he => hfound e (.tail _ he))
        (fun e he => hfile e (.tail _ he)) (fun e' he' k hk => ⟨hmem e' (.tail _ he') k hk, ?_⟩)
        hnodup.2).congr fun e' k hk => ?_
      · rintro rfl
        exact hnodup.1 (mem_filterMap.mpr ⟨e', he', hkey⟩)
      · simp [and_assoc]

end Config

/-! ## One step -/

section Steps

variable {owner : String → String} {files : String → Option C}

section

variable (h : Kept toml conf owner files d) (path : String)
include h

theorem Kept.owns :
    d.Owns (owner path) path :=
  fun e he hp => h.owned e he path hp

variable (contents : C) (ours : C → Bool)

/-- Writing a file leaves what undoing gives back. -/
theorem Kept.given_writeFile [DecidableEq C] (p : String) :
    (d.writeFile (owner path) path contents ours).given owner p = d.given owner p := by
  cases hrec : recorded d.record (owner path) path with
  | some b =>
    rw [writeFile, writeFileAt_again h.stocked.safe hrec]
    by_cases hp : p = path
    · subst hp
      simp only [given, hrec]
      cases b <;> rfl
    · simp [given, update_of_ne hp]
  | none =>
    rw [writeFile, writeFileAt_new h.stocked.safe hrec]
    by_cases hp : p = path
    · subst hp
      simp only [given, recorded, le_refl, if_true, findSome?_append]
      rw [← recorded, hrec]
      cases hfile : d.files p <;> simp [Entry.isFile]
    have hnew : ({ feature := owner path, change := .file path (d.files path).isSome } :
        Entry V).isFile (owner p) p = none := by
      simp [Entry.isFile, Ne.symm hp]
    simp only [given, recorded, le_refl, if_true, findSome?_append, findSome?_cons,
      hnew, findSome?_nil, or_none]
    have hcopies : (if 2 ≤ 4 ∧ (d.files path).isSome = true then
        Function.update d.copies path (d.files path) else d.copies) p = d.copies p := by
      split_ifs
      · exact update_of_ne hp _ _
      · rfl
    rw [hcopies]
    simp [update_of_ne hp]

theorem Kept.record_writeFile [DecidableEq C] :
    (d.writeFile (owner path) path contents ours).Stocked toml ∧
      ∃ new, (d.writeFile (owner path) path contents ours).record = d.record ++ new ∧
        ∀ e ∈ new, e.feature = owner path ∧ ∃ b, e.change = .file path b := by
  cases hrec : recorded d.record (owner path) path with
  | some b =>
    rw [writeFile, writeFileAt_again h.stocked.safe hrec]
    exact ⟨⟨h.stocked.safe, h.stocked.unique, h.stocked.found⟩, [], (append_nil _).symm, by simp⟩
  | none =>
    refine ⟨writeFile_stocked h.stocked (h.owns path) hrec contents ours, ?_⟩
    rw [writeFile, writeFileAt_new h.stocked.safe hrec]
    refine ⟨[_], rfl, fun e he => ?_⟩
    obtain rfl := mem_singleton.mp he
    exact ⟨rfl, _, rfl⟩

theorem Kept.writeFile [DecidableEq C] :
    Kept toml conf owner files (d.writeFile (owner path) path contents ours) := by
  obtain ⟨hstocked, new, hrecord, hnew⟩ := h.record_writeFile path contents ours
  have hnokey : ∀ e ∈ new, e.change.keyOf conf = none := by
    intro e he
    obtain ⟨-, b, hc⟩ := hnew e he
    rw [hc]
    rfl
  refine ⟨hstocked, ?_, ?_, ?_, fun p hp => ?_, ?_⟩
  · intro e he p hp
    rw [hrecord] at he
    obtain he | he := mem_append.mp he
    · exact h.owned e he p hp
    obtain ⟨hf, b, hc⟩ := hnew e he
    obtain rfl : path = p := by simpa [hc, Change.filePath] using hp
    exact hf
  · intro e he file table key previous hc
    rw [hrecord] at he
    obtain he | he := mem_append.mp he
    · exact h.valued e he file table key previous hc
    · obtain ⟨-, b, hc'⟩ := hnew e he
      exact absurd (hc'.symm.trans hc) (by simp)
  · have hnil : new.filterMap (·.change.keyOf conf) = [] := filterMap_eq_nil_iff.mpr hnokey
    rw [hrecord, filterMap_append, hnil, append_nil]
    exact h.keys
  · rw [h.given_writeFile]
    exact h.others p hp
  · rw [h.given_writeFile, hrecord]
    exact h.config.congr fun e k hk => mem_before_append hnokey hk

end

theorem addTo_cases (e : Entry V) (record : List (Entry V)) :
    (e.addTo record = record ∧
        ∃ e' ∈ record, e'.feature = e.feature ∧ e'.change.same e.change = true) ∨
      e.addTo record = record ++ [e] ∧
        ∀ e' ∈ record, e'.feature = e.feature → e'.change.same e.change = false := by
  unfold Entry.addTo
  split_ifs with hany
  · left
    simpa using hany
  · right
    simpa using hany

theorem record_setValue {table key : List Char} (previous : Option (Doc V))
    (hfirst : ∀ e ∈ d.record, e.change.keyOf conf = some (keyFull table key) → e.feature = f) :
    ∃ new, Entry.addTo { feature := f, change := .configValue conf table key previous } d.record =
        d.record ++ new ∧
      (new = [] ∧ (∃ e ∈ d.record, e.change.keyOf conf = some (keyFull table key)) ∨
        new = [{ feature := f, change := .configValue conf table key previous }] ∧
          ∀ e ∈ d.record, e.change.keyOf conf ≠ some (keyFull table key)) := by
  have hsame (change : Change V) :
      change.same (.configValue conf table key previous) = true ↔
        change.keyOf conf = some (keyFull table key) := by
    cases change with
    | file q b => simp [Change.same, Change.keyOf]
    | configValue file table' key' previous' =>
      simp only [Change.same, Bool.and_eq_true, decide_eq_true_eq, Change.keyOf,
        ite_none_right_eq_some, some.injEq]
      constructor
      · rintro ⟨⟨rfl, rfl⟩, rfl⟩
        exact ⟨rfl, rfl⟩
      rintro ⟨rfl, hkey⟩
      obtain ⟨rfl, rfl⟩ := keyFull_inj hkey
      exact ⟨⟨rfl, rfl⟩, rfl⟩
  obtain ⟨hadd, e, he, -, hkey⟩ | ⟨hadd, hnone⟩ := addTo_cases
    { feature := f, change := .configValue conf table key previous } d.record
  · exact ⟨[], by rw [hadd, append_nil], .inl ⟨rfl, e, he, (hsame _).mp hkey⟩⟩
  · refine ⟨_, hadd, .inr ⟨rfl, fun e he hkey => ?_⟩⟩
    exact absurd ((hsame _).mpr hkey) (by simp [hnone e he (hfirst e he hkey)])

/-- New entries that are not about files as a whole make no difference to
what is given back as a whole. -/
theorem given_append {new : List (Entry V)} (hnew : ∀ e ∈ new, e.change.filePath = none)
    (fs : String → Option C) (p : String) :
    given owner { d with files := fs, record := d.record ++ new } p =
      given owner { d with files := fs } p := by
  have hnone : recorded new (owner p) p = none := by
    refine findSome?_eq_none_iff.mpr fun e he => eq_none_iff_forall_ne_some.mpr ?_
    intro b hb
    have hpath := hnew e he
    rw [(isFile_eq_some.mp hb).2] at hpath
    exact absurd hpath (by simp [Change.filePath])
  have hrec : recorded (d.record ++ new) (owner p) p = recorded d.record (owner p) p := by
    rw [recorded, findSome?_append, ← recorded, ← recorded, hnone, or_none]
  simp only [given, hrec]

theorem Kept.setValue (h : Kept toml conf owner files d) {table key : List Char} {new : V}
    (hnot : (d.files conf).bind (fun c => (toml.parse c).find (keyFull table key)) ≠ some .table)
    (hset : d.setValue toml f conf table key new = some d')
    (hfirst : ∀ e ∈ d.record, e.change.keyOf conf = some (keyFull table key) → e.feature = f) :
    Kept toml conf owner files d' := by
  obtain ⟨c, hc, hset⟩ := bind_eq_some_iff.mp hset
  obtain ⟨r, hr, rfl⟩ := map_eq_some_iff.mp hset
  rw [hc, bind_some] at hnot
  have hformer : r.2 = (Change.configValue conf table key r.2).former.map .value := by
    obtain ⟨hprev, -⟩ | ⟨a, hprev, -⟩ := TableTree.previous_of_setAt hr hnot <;> rw [hprev] <;> rfl
  obtain ⟨entry, hadd, hentry⟩ := record_setValue r.2 hfirst
  have hnew : ∀ e ∈ entry, e.change = .configValue conf table key r.2 := by
    obtain ⟨rfl, -⟩ | ⟨rfl, -⟩ := hentry <;> simp
  have hnofile : ∀ e ∈ entry, e.change.filePath = none := by
    intro e he
    rw [hnew e he]
    rfl
  have hkeyed : ∀ e ∈ entry, e.change.keyOf conf = some (keyFull table key) := by
    intro e he
    rw [hnew e he, Change.keyOf, if_pos rfl]
  rw [hadd]
  refine ⟨⟨fun e he p hp => ?_, ?_, fun e he => ?_⟩, fun e he p hp => ?_,
    fun e he file t k previous hce => ?_, ?_, fun p hp => ?_, ?_⟩
  · obtain he | he := mem_append.mp he
    · exact h.stocked.safe e he p hp
    · exact absurd ((hnew e he).symm.trans hp) (by simp)
  · rw [filterMap_append, filterMap_eq_nil_iff.mpr hnofile, append_nil]
    exact h.stocked.unique
  · obtain he | he := mem_append.mp he
    · exact h.stocked.found e he
    · rw [hnew e he]
      exact ⟨c, new, r.1, hr⟩
  · obtain he | he := mem_append.mp he
    · exact h.owned e he p hp
    · exact absurd hp (by simp [hnofile e he])
  · obtain he | he := mem_append.mp he
    · exact h.valued e he file t k previous hce
    rw [hnew e he] at hce ⊢
    obtain ⟨rfl, -, -, rfl⟩ := Change.configValue.inj hce
    exact ⟨rfl, hformer⟩
  · obtain ⟨rfl, -⟩ | ⟨rfl, hfresh⟩ := hentry
    · simpa using h.keys
    rw [filterMap_append,
      filterMap_cons_some (f := fun e : Entry V => e.change.keyOf conf) (hkeyed _ (.head _))]
    refine nodup_snoc h.keys fun hk => ?_
    obtain ⟨e, he, hkey⟩ := mem_filterMap.mp hk
    exact hfresh e he hkey
  · rw [given_append hnofile, ← h.others p hp]
    simp [given, update_of_ne hp]
  rw [given_append hnofile]
  change Restores toml conf (· ∈ before conf (d.record ++ entry))
    (given owner (d.put conf (some (toml.print r.1))) conf) (files conf)
  by_cases hwhole : ∃ e ∈ d.record, e.change.filePath = some conf
  · -- the configuration is given back as a whole, whatever is set in it now
    obtain ⟨e, he, hpath⟩ := hwhole
    obtain ⟨b, hce⟩ := filePath_eq_some.mp hpath
    have hgiven := given_of_mem h.stocked he (h.owned e he conf hpath) hce
    have hgiven' := given_of_mem (h.stocked.put conf (some (toml.print r.1))) he
      (h.owned e he conf hpath) hce
    obtain ⟨older, newer, hsplit, holder, -⟩ :=
      Maps.split_of_nodup_filterMap h.stocked.unique he hpath
    have hconfig := h.config
    rw [hsplit, before_split holder hpath, hgiven] at hconfig
    rw [hgiven', hsplit, append_assoc, cons_append, before_split holder hpath]
    exact hconfig
  simp only [not_exists, not_and] at hwhole
  have hwhole' : ∀ e ∈ d.record ++ entry, e.change.filePath ≠ some conf := by
    intro e he
    obtain he | he := mem_append.mp he
    · exact hwhole e he
    · simp [hnofile e he]
  have hconfig := h.config
  rw [before_eq_self hwhole, given_of_not_mem hwhole, hc] at hconfig
  have hput : given owner (d.put conf (some (toml.print r.1))) conf =
      some (toml.print r.1) :=
    (given_of_not_mem (d := d.put conf _) hwhole).trans (update_self ..)
  rw [before_eq_self hwhole', hput]
  refine hconfig.set hr hnot (fun e he => mem_append_left _ he) ?_ fun e he => ?_
  · obtain ⟨rfl, e, he, hkey⟩ | ⟨rfl, -⟩ := hentry
    · exact ⟨e, mem_append_left _ he, hkey⟩
    · exact ⟨_, mem_append_right _ (.head _), hkeyed _ (.head _)⟩
  obtain he | he := mem_append.mp he
  · exact .inl he
  refine .inr ⟨hnew e he, ?_⟩
  obtain ⟨rfl, -⟩ | ⟨-, hfresh⟩ := hentry
  · exact absurd he (by simp)
  · exact hfresh

/-- Undo leaves the other features' entries, and their copies. -/
theorem undo_record (toml : Toml C V) (hd : d.Stocked toml) :
    (d.undo toml f).Stocked toml ∧ (d.undo toml f).record = d.others f ∧
      ∀ p, (∀ e ∈ d.mine f, e.change ≠ .file p true) →
        (d.undo toml f).copies p = d.copies p := by
  induction hmine : d.mine f generalizing d with
  | nil =>
    rw [undo_of_mine_nil toml hmine]
    refine ⟨hd, (filter_eq_self.mpr fun e he => ?_).symm, fun _ _ => rfl⟩
    have hnone := filter_eq_nil_iff.mp (reverse_eq_nil_iff.mp hmine) e he
    simpa using hnone
  | cons e todo ih =>
    obtain ⟨d₁, d₃, hone, hd₃, hmine₃, hothers₃, hstocked₃, hundo, -⟩ := undo_turn toml hd hmine
    obtain ⟨hstocked, hrecord, hcopies⟩ := ih hstocked₃ hmine₃
    rw [hundo]
    refine ⟨hstocked, hrecord.trans hothers₃, fun p hp => ?_⟩
    rw [hcopies p fun e' he' => hp e' (.tail _ he'), hd₃]
    exact (undoOne_frame hone).2.1 p (hp e (.head _))

variable {e : Entry V}

theorem mem_mine : e ∈ d.mine f ↔ e ∈ d.record ∧ e.feature = f := by
  simp [mine]

theorem mem_others : e ∈ d.others f ↔ e ∈ d.record ∧ e.feature ≠ f := by
  simp [others]

/-- What undo leaves of a file the feature has not written: as a whole,
nothing changes. -/
theorem Kept.given_undo_other (h : Kept toml conf owner files d)
    (he : e ∈ d.record) (hp : e.change.filePath = some p) (hf : e.feature ≠ f) :
    (d.undo toml f).given owner p = d.given owner p := by
  obtain ⟨hstocked, hrecord, hcopies⟩ := undo_record (f := f) toml h.stocked
  obtain ⟨b, hc⟩ := filePath_eq_some.mp hp
  have hmem : e ∈ (d.undo toml f).record := hrecord ▸ mem_others.mpr ⟨he, hf⟩
  rw [given_of_mem h.stocked he (h.owned e he p hp) hc,
    given_of_mem hstocked hmem (h.owned e he p hp) hc]
  cases b with
  | false => rfl
  | true =>
    refine congrArg (if true then · else none) (hcopies p fun e' he' hc' => hf ?_)
    obtain ⟨he', hf'⟩ := mem_mine.mp he'
    obtain rfl := Maps.eq_of_nodup_filterMap h.stocked.unique he he' hp (by rw [hc']; rfl)
    exact hf'

/-- What it leaves where no other feature's entry is about the file: the
changes older than the file's own entry, or all of them, are undone in what
the entry gives back. -/
theorem Kept.given_undo (h : Kept toml conf owner files d)
    (hother : ∀ e ∈ d.record, e.change.filePath = some p → e.feature = f) :
    ∃ older newer, d.record = older ++ newer ∧ before p d.record = older ∧
      (∀ e ∈ older, e.change.filePath ≠ some p) ∧
      (newer = [] ∨ ∃ e ∈ newer.head?, e.feature = f ∧ e.change.filePath = some p) ∧
      (d.undo toml f).given owner p =
        Fjarr.Setup.onAll toml p (d.copies p) (older.filter (·.feature = f)).reverse
          (d.given owner p) := by
  obtain ⟨-, hrecord, -⟩ := undo_record (f := f) toml h.stocked
  have hgiven : (d.undo toml f).given owner p = (d.undo toml f).files p := by
    refine given_of_not_mem fun e he hp => ?_
    rw [hrecord] at he
    exact (mem_others.mp he).2 (hother e (mem_others.mp he).1 hp)
  rw [hgiven, files_undo toml h.stocked]
  by_cases hown : ∃ e ∈ d.record, e.change.filePath = some p
  · obtain ⟨e, he, hp⟩ := hown
    obtain ⟨older, newer, hsplit, holder, -⟩ := Maps.split_of_nodup_filterMap h.stocked.unique he hp
    have hf := hother e he hp
    obtain ⟨b, hc⟩ := filePath_eq_some.mp hp
    refine ⟨older, e :: newer, hsplit, by rw [hsplit, before_split holder hp], holder,
      .inr ⟨e, rfl, hf, hp⟩, ?_⟩
    have hmine : d.mine f = (newer.filter (·.feature = f)).reverse ++
        e :: (older.filter (·.feature = f)).reverse := by
      rw [mine, hsplit, filter_append, filter_cons_of_pos (by simpa using hf)]
      simp
    rw [hmine, onAll_append, onAll_cons, given_of_mem h.stocked he (h.owned e he p hp) hc, hc]
    simp [Change.on]
  simp only [not_exists, not_and] at hown
  refine ⟨d.record, [], (append_nil _).symm, before_eq_self hown, hown, .inl rfl, ?_⟩
  rw [given_of_not_mem hown, mine]

theorem onAll_skip {copy x : Option C} {entries : List (Entry V)}
    (h : ∀ e ∈ entries, e.change.filePath ≠ some p ∧ e.change.keyOf p = none) :
    Fjarr.Setup.onAll toml p copy entries x = x := by
  induction entries with
  | nil => rfl
  | cons e entries ih =>
    have hskip : e.change.on toml p copy x = x := by
      obtain ⟨hfile, hkey⟩ := h e (.head _)
      cases hc : e.change with
      | file q b => exact if_neg fun hq => hfile (by rw [hc, hq]; rfl)
      | configValue file table key previous =>
        exact if_neg fun hq => by simp [hc, hq, Change.keyOf] at hkey
    rw [onAll_cons, hskip]
    exact ih fun e' he' => h e' (.tail _ he')

theorem Kept.undo (h : Kept toml conf owner files d)
    (hq : Orderly toml conf d (.undo f : Act C V)) :
    Kept toml conf owner files (d.undo toml f) := by
  obtain ⟨hstocked, hrecord, -⟩ := undo_record (f := f) toml h.stocked
  have hsub : (d.others f).Sublist d.record := filter_sublist
  refine ⟨hstocked, fun e he => ?_, fun e he => ?_, ?_, fun p hp => ?_, ?_⟩
  · rw [hrecord] at he
    exact h.owned e (hsub.subset he)
  · rw [hrecord] at he
    exact h.valued e (hsub.subset he)
  · rw [hrecord]
    exact h.keys.sublist (hsub.filterMap _)
  · rw [← h.others p hp]
    by_cases hother : ∃ e ∈ d.record, e.change.filePath = some p ∧ e.feature ≠ f
    · obtain ⟨e, he, hpath, hf⟩ := hother
      exact h.given_undo_other he hpath hf
    push Not at hother
    obtain ⟨older, newer, hsplit, -, holder, -, hgiven⟩ := h.given_undo hother
    rw [hgiven]
    refine onAll_skip fun e he => ?_
    have he' : e ∈ older := (mem_filter.mp (mem_reverse.mp he)).1
    refine ⟨holder e he', eq_none_iff_forall_ne_some.mpr fun k hk => ?_⟩
    obtain ⟨table, key, previous, hc, -⟩ := keyOf_eq_some.mp hk
    have hmem : e ∈ d.record := hsplit ▸ mem_append_left _ he'
    exact hp (h.valued e hmem _ _ _ _ hc).1
  rw [hrecord]
  by_cases hother : ∃ e ∈ d.record, e.change.filePath = some conf ∧ e.feature ≠ f
  · -- the feature's keys were set after the whole was written
    obtain ⟨e, he, hpath, hf⟩ := hother
    rw [h.given_undo_other he hpath hf]
    obtain ⟨older, newer, hsplit, holder, -⟩ :=
      Maps.split_of_nodup_filterMap h.stocked.unique he hpath
    have hothers : d.others f =
        older.filter (·.feature ≠ f) ++ e :: newer.filter (·.feature ≠ f) := by
      rw [Disk.others, hsplit, filter_append, filter_cons_of_pos (by simpa using hf)]
    have hconfig := h.config
    rw [hsplit, before_split holder hpath] at hconfig
    rw [hothers, before_split (fun e' he' => holder e' (mem_filter.mp he').1) hpath]
    refine hconfig.congr fun e' k hk => ?_
    have hlater : e' ∈ older → e'.feature ≠ f := by
      intro he' hf'
      rw [Orderly, hsplit, pairwise_append] at hq
      have hclash := hq.2.2 e' he' e (.head _) hf' hf
      exact absurd hclash (by simp [Change.clash, hk, hpath])
    rw [mem_filter]
    exact ⟨fun he' => he'.1, fun he' => ⟨he', by simpa using hlater he'⟩⟩
  push Not at hother
  obtain ⟨older, newer, hsplit, hbefore, holder, hnewer, hgiven⟩ := h.given_undo hother
  have hmem : ∀ e ∈ older, e ∈ d.record := fun e he => hsplit ▸ mem_append_left _ he
  have hmine : ∀ e, e ∈ (older.filter (·.feature = f)).reverse ↔ e ∈ older ∧ e.feature = f := by
    simp
  have hconfig := h.config
  rw [hbefore] at hconfig
  rw [hgiven, before_eq_self fun e he hpath =>
    (mem_others.mp he).2 (hother e (mem_others.mp he).1 hpath)]
  refine Restores.congr (hconfig.onAll ?_ ?_ ?_ ?_ ?_ ?_) fun e k hk => ?_
  · intro e e' k he he' hk hk'
    exact Maps.eq_of_nodup_filterMap h.keys (hmem e he) (hmem e' he') hk hk'
  · exact fun e he => h.valued e (hmem e ((hmine e).mp he).1)
  · exact fun e he => h.stocked.found e (hmem e ((hmine e).mp he).1)
  · exact fun e he => holder e ((hmine e).mp he).1
  · exact fun e he _ _ => ((hmine e).mp he).1
  · have hkeys := h.keys
    rw [hsplit, filterMap_append, nodup_append] at hkeys
    exact (((reverse_perm _).filterMap _).nodup_iff).mpr
      (hkeys.1.sublist (filter_sublist.filterMap _))
  rw [mem_others, hmine, hsplit, mem_append]
  refine ⟨?_, fun he => ⟨.inl he.1, fun hf => he.2 ⟨he.1, hf⟩⟩⟩
  rintro ⟨he | he, hf⟩
  · exact ⟨he, fun hmine => hf hmine.2⟩
  -- no other feature's key was set after the feature wrote the whole
  obtain rfl | ⟨e₀, he₀, hf₀, hpath⟩ := hnewer
  · exact absurd he not_mem_nil
  obtain ⟨later, rfl⟩ := head?_eq_some_iff.mp he₀
  obtain rfl | he := mem_cons.mp he
  · exact absurd hf₀ hf
  rw [Orderly, hsplit, pairwise_append, pairwise_cons] at hq
  have hclash := hq.2.1.1 e he hf₀ hf
  exact absurd hclash (by simp [Change.clash, hk, hpath])

end Steps

end Disk

section Runs

variable [DecidableEq C] {toml : Toml C V} {conf : String}
  {owner : String → String} {files : String → Option C}

variable {d d' : Disk C V}

theorem kept_setup {a : Act C V} (h : d.Kept toml conf owner files)
    (hq : Orderly toml conf d a) (hstep : setupStep toml conf owner d a = some d') :
    d'.Kept toml conf owner files := by
  cases a with
  | writeFile f path contents ours =>
    obtain ⟨rfl, hd'⟩ := ite_none_right_eq_some.mp hstep
    rw [← some.inj hd']
    exact h.writeFile path contents ours
  | setValue f table key new =>
    exact h.setValue hq.1 hstep hq.2
  | undo f =>
    rw [← some.inj hstep]
    exact h.undo hq

theorem kept_init : (setup toml conf owner files).init.Kept toml conf owner files where
  stocked := ⟨nofun, nodup_nil, nofun⟩
  owned := nofun
  valued := nofun
  keys := nodup_nil
  others := fun _ _ => rfl
  config := ⟨rfl, nofun, nofun,
    fun _ _ => rfl⟩

/-- The feature a command records changes for. -/
def Act.changes : Act C V → Option String
  | .writeFile f _ _ _ => some f
  | .setValue f _ _ _ => some f
  | .undo _ => none

/-- Every command that records changes is followed by an undo of its feature. -/
def AllUndone : List (Act C V) → Prop
  | [] => True
  | a :: as => (∀ f, a.changes = some f → .undo f ∈ as) ∧ AllUndone as

/-- A step records changes of its own feature, or takes them out. -/
theorem record_step {a : Act C V} (h : d.Kept toml conf owner files)
    (hstep : setupStep toml conf owner d a = some d') {e : Entry V} (he : e ∈ d'.record) :
    a.changes = some e.feature ∨ e ∈ d.record ∧ a ≠ .undo e.feature := by
  cases a with
  | writeFile f path contents ours =>
    obtain ⟨rfl, hd'⟩ := ite_none_right_eq_some.mp hstep
    obtain ⟨-, new, hrecord, hnew⟩ := h.record_writeFile path contents ours
    rw [← some.inj hd', hrecord] at he
    obtain he | he := mem_append.mp he
    · exact .inr ⟨he, by simp⟩
    · exact .inl (congrArg some (hnew e he).1.symm)
  | setValue f table key new =>
    obtain ⟨c, -, hd'⟩ := bind_eq_some_iff.mp hstep
    obtain ⟨r, -, rfl⟩ := map_eq_some_iff.mp hd'
    obtain ⟨hadd, -⟩ | ⟨hadd, -⟩ := Disk.addTo_cases
      { feature := f, change := .configValue conf table key r.2 } d.record
    · exact .inr ⟨hadd ▸ he, by simp⟩
    obtain he | he := mem_append.mp (hadd ▸ he)
    · exact .inr ⟨he, by simp⟩
    · rw [mem_singleton.mp he]
      exact .inl rfl
  | undo f =>
    rw [← some.inj hstep, (Disk.undo_record toml h.stocked).2.1] at he
    obtain ⟨he, hf⟩ := Disk.mem_others.mp he
    exact .inr ⟨he, by simpa using Ne.symm hf⟩

/-- What is recorded at the end of such a run was there and not undone. -/
theorem record_run {as : List (Act C V)} (h : d.Kept toml conf owner files)
    (hq : (setup toml conf owner files).AllSteps (Orderly toml conf) d as)
    (hrun : (setup toml conf owner files).run d as = some d') (hundone : AllUndone as)
    {e : Entry V} (he : e ∈ d'.record) : e ∈ d.record ∧ .undo e.feature ∉ as := by
  induction as generalizing d with
  | nil =>
    rw [System.run_nil, some.injEq] at hrun
    exact ⟨hrun ▸ he, not_mem_nil⟩
  | cons a as ih =>
    obtain ⟨d₁, hstep, hrun⟩ := (System.run_cons_eq_some _).mp hrun
    obtain ⟨hthere, hnot⟩ := ih (kept_setup h hq.1 hstep) (hq.2 d₁ hstep) hrun hundone.2
    obtain hchanges | ⟨hthere, hne⟩ := record_step h hstep hthere
    · exact absurd (hundone.1 e.feature hchanges) hnot
    refine ⟨hthere, fun hmem => ?_⟩
    obtain heq | hmem := mem_cons.mp hmem
    · exact hne heq.symm
    · exact hnot hmem

/-- Once every feature is undone, the record is empty, every file is as it
was found or absent as it was, and every key of the configuration has the
value it had: in every run in which no feature sets a key where a table
stands or that another has recorded, and none is undone while a later change
of another clashes with one of its own. -/
theorem undo_gives_back (toml : Toml C V) (conf : String) (owner : String → String)
    (files : String → Option C) {as : List (Act C V)} {d : Disk C V}
    (hrun : (setup toml conf owner files).run (setup toml conf owner files).init as = some d)
    (hq : (setup toml conf owner files).AllSteps (Orderly toml conf)
      (setup toml conf owner files).init as)
    (hundone : AllUndone as) :
    d.record = [] ∧ (∀ p, p ≠ conf → d.files p = files p) ∧
      (d.files conf).isSome = (files conf).isSome ∧
      ∀ k, Disk.values toml (d.files conf) k = Disk.values toml (files conf) k := by
  have hnil : d.record = [] := by
    refine eq_nil_iff_forall_not_mem.mpr fun e he => ?_
    exact absurd (record_run kept_init hq hrun hundone he).1 not_mem_nil
  have hkept : d.Kept toml conf owner files :=
    System.run_induction (P := Disk.Kept toml conf owner files) (Q := Orderly toml conf) _
      (fun _ _ _ hP hQ hstep => kept_setup hP hQ hstep) kept_init hq hrun
  have hgiven : ∀ p, d.given owner p = d.files p := fun p =>
    Disk.given_of_not_mem fun e he => by simp [hnil] at he
  have hconfig := hkept.config
  rw [hgiven, hnil] at hconfig
  refine ⟨hnil, fun p hp => ?_, hconfig.isSome, fun k => ?_⟩
  · rw [← hgiven]
    exact hkept.others p hp
  · exact (hconfig.rest k nofun).symm

end Runs

def deviceFiles (p : String) : Option (Doc Nat) :=
  if p = "/etc/fjarr/fjarr.toml" then some (netDoc [("enabled".toList, .value 0)]) else none

/-- A device with a configuration, which `setup` writes as a whole and
`net setup` sets a key of. -/
def device : System (Disk (Doc Nat) Nat) (Act (Doc Nat) Nat) :=
  setup Disk.plain "/etc/fjarr/fjarr.toml" (fun _ => "setup") deviceFiles

def netSetup : Act (Doc Nat) Nat := .setValue "net" "fjarr.net".toList "enabled".toList 1

def wholeSetup : Act (Doc Nat) Nat :=
  .writeFile "setup" "/etc/fjarr/fjarr.toml" (netDoc []) fun _ => false

/-- The key in the configuration, 1 where it is true. -/
def enabledOf (d : Disk (Doc Nat) Nat) : Option Nat :=
  Disk.values Disk.plain (d.files "/etc/fjarr/fjarr.toml")
    (keyFull "fjarr.net".toList "enabled".toList)

/-- Undone in reverse. -/
theorem undo_gives_back_reversed : ∃ d,
    device.run device.init [netSetup, wholeSetup, .undo "setup", .undo "net"] = some d ∧
      d.record = [] ∧ enabledOf d = some 0 := by
  refine ⟨_, rfl, ?_⟩
  have hq : device.AllSteps (Orderly Disk.plain "/etc/fjarr/fjarr.toml") device.init
      [netSetup, wholeSetup, .undo "setup", .undo "net"] := by
    decide +kernel
  have hback := undo_gives_back Disk.plain "/etc/fjarr/fjarr.toml" (fun _ => "setup") deviceFiles
    rfl hq
    ⟨by simp [Act.changes, netSetup], by simp [Act.changes, wholeSetup], by simp [Act.changes],
      by simp [Act.changes], trivial⟩
  refine ⟨hback.1, (hback.2.2.2 _).trans ?_⟩
  decide +kernel

/-- Undone in the order they ran: the copy of the configuration has the
other feature's value, which was undone before it came back. -/
theorem undone_value_returns : ∃ d,
    device.run device.init [netSetup, wholeSetup, .undo "net", .undo "setup"] = some d ∧
      AllUndone [netSetup, wholeSetup, .undo "net", .undo "setup"] ∧
      d.record.isEmpty = true ∧ enabledOf device.init = some 0 ∧ enabledOf d = some 1 := by
  refine ⟨_, rfl, ⟨by simp [Act.changes, netSetup], by simp [Act.changes, wholeSetup],
    by simp [Act.changes], by simp [Act.changes], trivial⟩, ?_⟩
  decide +kernel

end Fjarr.Setup
