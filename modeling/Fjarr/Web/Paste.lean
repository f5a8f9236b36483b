/-
Fjarr.Web.Paste — the paste gesture of `DesktopView`
(`web/packages/react/src/desktop.tsx`: `finishPaste`, the editor's
`onKeyDown` and `onPaste`; `DesktopClipboard.write` and `writeImage` of
`web/packages/core/src/desktop.ts`).

The paste chord is held back. The browser's `paste` event then carries
what the operator pasted; the view writes it to the robot's clipboard and
sends Ctrl+V once the write is settled. If no event comes, a timer sends
Ctrl+V after 300 ms. All of it ends in `finishPaste`, so the robot may get
Ctrl+V twice for one gesture, or before its clipboard holds what was
pasted (`pasted_twice`): when the event comes after the timer, when the
write fails (its failure is swallowed), when two writes overlap, or when
the view lost the desktop in the meantime. Without those
(`InTime`), a gesture is pasted once and as it was (`pastes_once`).

A gesture is a number: the chord and the event the browser fires for it
carry the same one. `log` is what happened and what the view sent, in
order. Between a promise that settles and what awaits it no event of the
page comes, so the two are one step. Left out are the keys other than the
chord, the release of a held Meta key before Ctrl+V, and the unmounting of
the view.
-/
import Fjarr.Lib.Bytes
import Fjarr.Lib.Maps
import Fjarr.Lib.Transition

namespace Fjarr.Web

open Lib List Option

abbrev Gesture := Nat

/-! ## The view -/

inductive Content where
  | text (text : String)
  | png (bytes : Bytes)
  deriving DecidableEq

/-- `clipboardData`: its PNG file, if it has one, and its text. -/
structure PasteData where
  image : Option Bytes := none
  text : String := ""
  deriving DecidableEq

/-- What a paste carries: an image in preference to text beside it. -/
def PasteData.content (data : PasteData) : Option Content :=
  match data.image with
  | some png => some (.png png)
  | none => if data.text = "" then none else some (.text data.text)

theorem PasteData.image_of_text {data : PasteData} {text : String}
    (h : data.content = some (.text text)) : data.image = none := by
  unfold PasteData.content at h
  split at h
  · cases h
  · assumption

inductive Event where
  | chord (g : Gesture)
  | paste (g : Gesture) (data : PasteData)
  /-- The timer a chord had set. -/
  | fired (g : Gesture)
  /-- A `clipboard-write` request, numbered. -/
  | write (id : Nat) (content : Content)
  | answered (id : Nat) (ok : Bool)
  /-- Ctrl+V as a `key-combo`, and the gesture it is sent for. -/
  | combo (g : Gesture)
  deriving DecidableEq

/-- Where a `finishPaste` with content waits. -/
inductive Stage where
  /-- `png.arrayBuffer()`. -/
  | reading (png : Bytes)
  | writing (id : Nat)
  deriving DecidableEq

structure View where
  clipboardOn : Bool := true
  focused : Bool := false
  mayInput : Bool := false
  /-- `clip.clipboard` is there. -/
  clipboard : Bool := false
  /-- The gesture whose chord set the timer, and when it is due. -/
  pasteWait : Option (Gesture × Nat) := none
  pasting : Std.ExtTreeMap Gesture Stage := {}
  writes : Nat := 0
  /-- In milliseconds. -/
  clock : Nat := 0
  log : List Event := []

namespace View

variable (v : View) (g : Gesture)

def note (e : Event) : View := { v with log := v.log ++ [e] }

/-- `DesktopClipboard.write`, `writeImage`, up to their answer. -/
def write (v : View) (g : Gesture) (content : Content) : View :=
  { v with
    writes := v.writes + 1
    pasting := v.pasting.insert g (.writing v.writes) }.note (.write v.writes content)

/-- `finishPaste`, up to its first wait. -/
def finishPaste (content : Option Content) : View :=
  let v := { v with pasteWait := none }
  match content with
  | none => v.note (.combo g)
  | some content =>
    if !v.clipboard then v.note (.combo g)
    else
      match content with
      | .text text => v.write g (.text text)
      | .png png => { v with pasting := v.pasting.insert g (.reading png) }

/-- The end of `finishPaste`. -/
def finish : View :=
  { v with pasting := v.pasting.erase g }.note (.combo g)

/-- The handlers act at all. -/
def takes : Bool := v.focused && v.mayInput && v.clipboardOn

/-- `onKeyDown` of the paste chord. -/
def onKeyDown (again : Bool) : View :=
  if v.takes ∧ !again ∧ v.pasteWait.isNone then { v with pasteWait := some (g, v.clock + 300) }
  else v

/-- `onPaste`. -/
def onPaste (data : PasteData) : View :=
  if v.takes then v.finishPaste g data.content else v

/-! ### What happened -/

def chorded : Bool := v.log.contains (.chord g)

def fired (v : View) (g : Gesture) : Bool := v.log.contains (.fired g)

def pasted : Bool :=
  v.log.any fun
    | .paste g' _ => g' = g
    | _ => false

/-- The gesture's chord waits for the timer. -/
def waits : Bool := v.pasteWait.any fun w => w.1 = g

/-- Every write is answered. -/
def settled : Bool :=
  v.pasting.toList.all fun
    | (_, .writing _) => false
    | _ => true

end View

/-! ## Runs -/

inductive Page where
  | chord (g : Gesture) (again : Bool)
  | paste (g : Gesture) (data : PasteData)
  | timer
  /-- The image's bytes are read, or cannot be. -/
  | read (g : Gesture) (ok : Bool)
  | answered (g : Gesture) (ok : Bool)
  | focus (focused : Bool)
  | control (mayInput : Bool)
  | clipboard (ready : Bool)

structure Tick where
  what : Page
  time : Nat

/-- One event of the page. A gesture has one chord and one `paste` at
most. -/
def View.take (v : View) : Page → Option View
  | .chord g again =>
    if v.chorded g ∨ v.pasted g then none else some ((v.note (.chord g)).onKeyDown g again)
  | .paste g data => if v.pasted g then none else some ((v.note (.paste g data)).onPaste g data)
  | .timer =>
    match v.pasteWait with
    | none => none
    | some (g, due) =>
      if v.clock < due then none else some ((v.note (.fired g)).finishPaste g none)
  | .read g ok =>
    match v.pasting[g]? with
    | some (.reading png) => some (if ok then v.write g (.png png) else v.finish g)
    | _ => none
  | .answered g ok =>
    match v.pasting[g]? with
    | some (.writing id) => some ((v.note (.answered id ok)).finish g)
    | _ => none
  | .focus focused => some { v with focused }
  | .control mayInput => some { v with mayInput }
  | .clipboard ready => some { v with clipboard := ready }

def page (clipboardOn : Bool) : System View Tick where
  init := { clipboardOn }
  step := fun v a => if a.time < v.clock then none else { v with clock := a.time }.take a.what

/-! ## What is to hold -/

def Event.write? : Event → Option (Nat × Content)
  | .write id content => some (id, content)
  | _ => none

/-- The last write the view asked for. -/
def lastWrite (log : List Event) : Option (Nat × Content) := (log.filterMap Event.write?).getLast?

/-- Ctrl+V for a gesture whose event carried something comes when that
was the last write asked for, and it was answered ok. -/
def Faithful (log : List Event) : Prop :=
  ∀ g data content, .paste g data ∈ log → data.content = some content →
    ∀ sofar, sofar ++ [.combo g] <+: log →
      ∃ id, lastWrite sofar = some (id, content) ∧ .answered id true ∈ sofar

def Event.isCombo : Event → Bool
  | .combo _ => true
  | _ => false

def View.combos (v : View) : List Event := v.log.filter Event.isCombo

/-- The event is in time. A `paste` the view takes comes before its
gesture's timer; if it carries something the clipboard is there, and no
write is unanswered when another is asked for. One it does not take
carries nothing, or its gesture neither waits nor was timed out. Images
can be read and writes succeed, and the view may send input when a write
is answered and when the timer is due. -/
def InTime (v : View) (a : Tick) : Prop :=
  match a.what with
  | .paste g data =>
    (v.takes = true → v.fired g = false) ∧
      (data.content.isSome = true →
        if v.takes = true then v.clipboard = true ∧ (data.image.isNone = true → v.settled = true)
        else v.fired g = false ∧ v.waits g = false)
  | .timer => v.mayInput = true
  | .read _ ok => ok = true ∧ v.settled = true
  | .answered _ ok => ok = true ∧ v.mayInput = true
  | _ => True

instance (v : View) (a : Tick) : Decidable (InTime v a) := by
  unfold InTime
  split <;> infer_instance

/-! ## The log -/

section Log

variable {log : List Event} {e : Event}

theorem lastWrite_concat (h : e.write? = none) : lastWrite (log ++ [e]) = lastWrite log := by
  unfold lastWrite
  rw [filterMap_append, filterMap_cons_none h, filterMap_nil, append_nil]

theorem lastWrite_write (log : List Event) (id : Nat) (content : Content) :
    lastWrite (log ++ [.write id content]) = some (id, content) := by
  unfold lastWrite
  rw [filterMap_append]
  exact getLast?_concat

/-- What one more event has to bring along. -/
theorem Faithful.concat (h : Faithful log)
    (hpaste : ∀ g data, e = .paste g data → data.content.isSome = true → .combo g ∉ log)
    (hcombo : ∀ g, e = .combo g → ∀ data content, .paste g data ∈ log →
      data.content = some content →
        ∃ id, lastWrite log = some (id, content) ∧ .answered id true ∈ log) :
    Faithful (log ++ [e]) := by
  intro g data content hmem hcontent sofar hsofar
  rcases prefix_concat_iff.mp hsofar with heq | hsofar
  · obtain ⟨rfl, he⟩ := append_inj' heq rfl
    obtain rfl := List.cons.inj he |>.1
    have hmem : .paste g data ∈ sofar := by simpa using hmem
    exact hcombo g rfl data content hmem hcontent
  rcases mem_append.mp hmem with hmem | hmem
  · exact h g data content hmem hcontent sofar hsofar
  have hin : .combo g ∈ log := hsofar.subset (by simp)
  have he := (mem_singleton.mp hmem).symm
  exact absurd hin (hpaste g data he (by rw [hcontent]; rfl))

end Log

namespace View

variable {v : View} {g : Gesture}

theorem finishPaste_text (h : v.clipboard = true) (g : Gesture) (text : String) :
    v.finishPaste g (some (.text text)) = { v with pasteWait := none }.write g (.text text) := by
  simp [finishPaste, h]

theorem finishPaste_png (h : v.clipboard = true) (g : Gesture) (png : Bytes) :
    v.finishPaste g (some (.png png)) =
      { v with pasteWait := none, pasting := v.pasting.insert g (.reading png) } := by
  simp [finishPaste, h]

theorem fired_iff : v.fired g = true ↔ .fired g ∈ v.log :=
  contains_iff_mem

theorem chorded_iff : v.chorded g = true ↔ .chord g ∈ v.log :=
  contains_iff_mem

theorem pasted_iff :
    v.pasted g = true ↔ ∃ data, .paste g data ∈ v.log := by
  unfold pasted
  rw [List.any_eq_true]
  constructor
  · rintro ⟨e, hmem, he⟩
    cases e with
    | paste g' data =>
      obtain rfl := of_decide_eq_true he
      exact ⟨data, hmem⟩
    | _ => cases he
  · rintro ⟨data, hmem⟩
    exact ⟨_, hmem, decide_eq_true rfl⟩

theorem not_writing_of_settled (h : v.settled = true) {id : Nat} :
    v.pasting[g]? ≠ some (.writing id) := by
  intro hg
  rw [← Std.ExtTreeMap.mem_toList_iff_getElem?_eq_some] at hg
  have hall := List.all_eq_true.mp h _ hg
  cases hall

end View

/-! ## Invariant -/

/-- What a paste in progress is about. -/
def Stage.About (log : List Event) (content : Content) : Stage → Prop
  | .reading png => content = .png png
  | .writing id => lastWrite log = some (id, content)

structure Good (v : View) : Prop where
  /-- Sent, in progress or waiting: one of them at most. -/
  once : ∀ g, v.log.count (.combo g) + (if (v.pasting[g]?).isSome then 1 else 0) +
    (if v.waits g then 1 else 0) ≤ 1
  known : ∀ g, .combo g ∈ v.log → .fired g ∈ v.log ∨ ∃ data, .paste g data ∈ v.log
  chorded : ∀ g, v.waits g = true ∨ .fired g ∈ v.log → .chord g ∈ v.log
  pasting : ∀ (g : Gesture) (stage : Stage), v.pasting[g]? = some stage →
    ∃ data content, .paste g data ∈ v.log ∧ data.content = some content ∧
      stage.About v.log content
  unique : ∀ g data data', .paste g data ∈ v.log → .paste g data' ∈ v.log → data = data'
  empty : ∀ g data, v.waits g = true → .paste g data ∈ v.log → data.content = none
  faithful : Faithful v.log

namespace Good

variable {v : View} {g : Gesture}

theorem same {v' : View} (h : Good v) (hlog : v'.log = v.log) (hpasting : v'.pasting = v.pasting)
    (hwait : v'.pasteWait = v.pasteWait) : Good v' := by
  have hwaits : ∀ g, v'.waits g = v.waits g := fun g => by rw [View.waits, View.waits, hwait]
  refine ⟨fun g => ?_, ?_, fun g => ?_, ?_, ?_, fun g => ?_, ?_⟩
  · rw [hlog, hpasting, hwaits]
    exact h.once g
  · rw [hlog]
    exact h.known
  · rw [hlog, hwaits]
    exact h.chorded g
  · rw [hlog, hpasting]
    exact h.pasting
  · rw [hlog]
    exact h.unique
  · rw [hlog, hwaits]
    exact h.empty g
  · rw [hlog]
    exact h.faithful

theorem unwait (h : Good v) : Good { v with pasteWait := none } where
  once := fun g => (Nat.add_le_add_left (Nat.zero_le _) _).trans (h.once g)
  known := h.known
  chorded := fun g hg => h.chorded g (hg.imp (fun hw => (nomatch hw)) id)
  pasting := h.pasting
  unique := h.unique
  empty := fun _ _ hw => (nomatch hw)
  faithful := h.faithful

variable {e : Event} {data : PasteData}

theorem mem_of_note {x : Event} (h : x ∈ (v.note e).log) (hne : x ≠ e) : x ∈ v.log :=
  (mem_append.mp h).resolve_right fun hx => hne (mem_singleton.mp hx)

theorem mem_note {x : Event} (h : x ∈ v.log) : x ∈ (v.note e).log := mem_append_left _ h

/-- Nothing was sent for the gesture yet, nothing is in progress and
nothing waits. -/
def Free (v : View) (g : Gesture) : Prop :=
  .combo g ∉ v.log ∧ v.pasting[g]? = none ∧ v.waits g = false

/-- What an event has to bring along, by its kind. -/
def Fits (v : View) : Event → Prop
  | .chord _ => True
  | .paste g data => (∀ data, .paste g data ∉ v.log) ∧
      (data.content.isSome = true → .combo g ∉ v.log ∧ v.waits g = false)
  | .fired g => .chord g ∈ v.log
  | .write _ _ => v.settled = true
  | .answered _ _ => True
  | .combo g => Free v g ∧ (.fired g ∈ v.log ∨ ∃ data, .paste g data ∈ v.log) ∧
      ∀ data content, .paste g data ∈ v.log → data.content = some content →
        ∃ id, lastWrite v.log = some (id, content) ∧ .answered id true ∈ v.log

/-- The last write is the same, or none is unanswered. -/
theorem Fits.about (he : Fits v e) {stage : Stage} {content : Content}
    (hg : v.pasting[g]? = some stage) (h : stage.About v.log content) :
    stage.About (v.note e).log content := by
  cases stage with
  | reading png => exact h
  | writing id =>
    cases e with
    | write id' content' => exact absurd hg (View.not_writing_of_settled he)
    | _ => exact (lastWrite_concat rfl).trans h

variable (h : Good v)
include h

theorem once_note (he : Fits v e) (g : Gesture) :
    (v.note e).log.count (.combo g) + (if (v.pasting[g]?).isSome then 1 else 0) +
      (if v.waits g then 1 else 0) ≤ 1 := by
  by_cases hcombo : e = .combo g
  · subst hcombo
    obtain ⟨⟨hcombo, hpasting, hwaits⟩, -⟩ := he
    rw [View.note, count_append, count_eq_zero_of_not_mem hcombo, hpasting, hwaits]
    simp
  rw [View.note, count_append, count_singleton, if_neg (by simpa using hcombo),
    Nat.add_zero]
  exact h.once g

theorem unique_note (he : Fits v e) {g : Gesture} {data' : PasteData}
    (hd : .paste g data ∈ (v.note e).log) (hd' : .paste g data' ∈ (v.note e).log) :
    data = data' := by
  by_cases hnew : e = .paste g data
  · subst hnew
    by_contra hne
    exact he.1 data' (mem_of_note hd' fun heq => hne (Event.paste.inj heq).2.symm)
  by_cases hnew' : e = .paste g data'
  · subst hnew'
    exact absurd (mem_of_note hd fun heq => hnew heq.symm) (he.1 data)
  · exact h.unique g data data' (mem_of_note hd fun heq => hnew heq.symm)
      (mem_of_note hd' fun heq => hnew' heq.symm)

theorem note (he : Fits v e) : Good (v.note e) where
  once := h.once_note he
  known := by
    intro g hg
    have hknown : .fired g ∈ v.log ∨ ∃ data, .paste g data ∈ v.log := by
      by_cases hcombo : e = .combo g
      · subst hcombo
        exact he.2.1
      · exact h.known g (mem_of_note hg fun heq => hcombo heq.symm)
    refine hknown.imp mem_note ?_
    rintro ⟨data, hd⟩
    exact ⟨data, mem_note hd⟩
  chorded := by
    rintro g (hw | hf)
    · exact mem_note (h.chorded g (.inl hw))
    by_cases hfired : e = .fired g
    · subst hfired
      exact mem_note he
    · exact mem_note (h.chorded g (.inr (mem_of_note hf fun heq => hfired heq.symm)))
  pasting := by
    intro g stage hg
    obtain ⟨data, content, hd, hcontent, habout⟩ := h.pasting g stage hg
    exact ⟨data, content, mem_note hd, hcontent, he.about hg habout⟩
  unique := fun _ _ _ hd hd' => h.unique_note he hd hd'
  empty := by
    intro g data hw hd
    by_cases hnew : e = .paste g data
    · subst hnew
      by_contra hsome
      have hnot := (he.2 (isSome_iff_ne_none.mpr hsome)).2
      exact absurd (hw.symm.trans hnot) (by decide)
    · exact h.empty g data hw (mem_of_note hd fun heq => hnew heq.symm)
  faithful := by
    refine h.faithful.concat (fun g data hnew hsome => ?_) fun g hcombo => ?_
    · subst hnew
      exact (he.2 hsome).1
    · subst hcombo
      exact he.2.2

theorem stage {pasting : Std.ExtTreeMap Gesture Stage} {stage : Stage}
    (hpasting : pasting = v.pasting.insert g stage) (hcombo : .combo g ∉ v.log)
    (hwaits : v.waits g = false)
    (hdata : ∃ data content, .paste g data ∈ v.log ∧ data.content = some content ∧
      stage.About v.log content) : Good { v with pasting } where
  __ := h
  once := fun g' => by
    subst hpasting
    rw [Maps.get?_insert]
    split
    · rename_i hgg
      subst hgg
      have hwaits' : View.waits { v with pasting := v.pasting.insert g' stage } g' = false := hwaits
      rw [count_eq_zero_of_not_mem hcombo, hwaits']
      rfl
    · exact h.once g'
  pasting := fun g' stage' hg => by
    subst hpasting
    obtain ⟨rfl, rfl⟩ | ⟨-, hg⟩ := Maps.of_get?_insert hg
    · exact hdata
    · exact h.pasting g' stage' hg

/-- The chord of a gesture that is free sets the timer. -/
theorem wait {due : Nat} (hfree : Free v g) (hchord : .chord g ∈ v.log)
    (hnew : ∀ data, .paste g data ∉ v.log) (hnone : v.pasteWait = none) :
    Good { v with pasteWait := some (g, due) } := by
  have hwaits : ∀ g', View.waits { v with pasteWait := some (g, due) } g' = decide (g = g') :=
    fun _ => rfl
  have hidle : ∀ g', v.waits g' = false := fun g' => by rw [View.waits, hnone]; rfl
  refine { h with once := fun g' => ?_, chorded := fun g' hg => ?_, empty := fun g' data hw hd => ?_ }
  · have honce := h.once g'
    rw [hidle] at honce
    rw [hwaits]
    by_cases hgg : g = g'
    · subst hgg
      obtain ⟨hcombo, hpasting, -⟩ := hfree
      rw [count_eq_zero_of_not_mem hcombo, hpasting]
      simp
    · rw [decide_eq_false hgg]
      exact honce
  · rcases hg with hw | hf
    · rw [hwaits] at hw
      exact of_decide_eq_true hw ▸ hchord
    · exact h.chorded g' (.inr hf)
  · rw [hwaits] at hw
    exact absurd (of_decide_eq_true hw ▸ hd) (hnew data)

theorem of_pasting {stage : Stage} (hstage : v.pasting[g]? = some stage) :
    .combo g ∉ v.log ∧ v.waits g = false := by
  have honce := h.once g
  rw [hstage, isSome_some, if_pos rfl] at honce
  constructor
  · refine count_eq_zero.mp ?_
    omega
  cases hw : v.waits g with
  | false => rfl
  | true =>
    rw [hw, if_pos rfl] at honce
    omega

/-- A write is asked for when every other one is answered. -/
theorem write {content : Content} (hsettled : v.settled = true)
    (hcombo : .combo g ∉ v.log) (hwaits : v.waits g = false) (hdata : .paste g data ∈ v.log)
    (hcontent : data.content = some content) : Good (v.write g content) := by
  have hnoted := h.note (e := .write v.writes content) hsettled
  have hcombo' : .combo g ∉ (v.note (.write v.writes content)).log := fun hg =>
    hcombo (mem_of_note hg fun he => (nomatch he))
  have hstage : Good { v.note (.write v.writes content) with
      pasting := v.pasting.insert g (.writing v.writes) } :=
    hnoted.stage rfl hcombo' hwaits
      ⟨data, content, mem_note hdata, hcontent, lastWrite_write _ _ _⟩
  exact hstage.same rfl rfl rfl

/-- Ctrl+V for a paste that was in progress. -/
theorem finish {stage : Stage} (hstage : v.pasting[g]? = some stage)
    (hcontent : ∀ data content, .paste g data ∈ v.log → data.content = some content →
      ∃ id, lastWrite v.log = some (id, content) ∧ .answered id true ∈ v.log) :
    Good (v.finish g) := by
  obtain ⟨hcombo, hwaits⟩ := h.of_pasting hstage
  have herased : Good { v with pasting := v.pasting.erase g } := by
    refine { h with once := fun g' => ?_, pasting := fun g' stage' hg => ?_ }
    · rw [Maps.get?_erase]
      split
      · exact (Nat.add_le_add_right (Nat.add_le_add_left (Nat.zero_le _) _) _).trans (h.once g')
      · exact h.once g'
    exact h.pasting g' stage' (Maps.of_get?_erase hg).2
  obtain ⟨data, -, hdata, -⟩ := h.pasting g stage hstage
  refine herased.note (e := .combo g) ⟨⟨hcombo, ?_, hwaits⟩, .inr ⟨data, hdata⟩, hcontent⟩
  rw [Maps.get?_erase, if_pos rfl]

/-- The timer: no `paste` of the gesture carried anything. -/
theorem timer {due : Nat} (hwait : v.pasteWait = some (g, due)) :
    Good ((v.note (.fired g)).finishPaste g none) := by
  have hwaits : v.waits g = true := by
    rw [View.waits, hwait]
    exact decide_eq_true rfl
  have honce := h.once g
  rw [hwaits, if_pos rfl] at honce
  have hfired := (h.note (e := .fired g) (h.chorded g (.inl hwaits))).unwait
  refine hfired.note (e := .combo g) ⟨⟨?_, ?_, rfl⟩, .inl (mem_append_right _ (by simp)), ?_⟩
  · intro hg
    have hpos := count_pos_iff.mpr (mem_of_note hg fun he => (nomatch he))
    omega
  · cases hs : v.pasting[g]? with
    | none => exact hs
    | some stage =>
      rw [hs, isSome_some, if_pos rfl] at honce
      omega
  intro data content hdata hcontent
  have hempty := h.empty g data hwaits (mem_of_note hdata fun he => (nomatch he))
  rw [hempty] at hcontent
  cases hcontent

/-- A `paste` the view takes. -/
theorem paste (hnew : ∀ data, .paste g data ∉ v.log) (hfired : .fired g ∉ v.log)
    (hcontent : data.content.isSome = true →
      v.clipboard = true ∧ (data.image.isNone = true → v.settled = true)) :
    Good ((v.note (.paste g data)).finishPaste g data.content) := by
  have hcombo : .combo g ∉ v.log := by
    intro hg
    rcases h.known g hg with hf | ⟨d, hd⟩
    · exact hfired hf
    · exact hnew d hd
  have hpasting : v.pasting[g]? = none := by
    cases hs : v.pasting[g]? with
    | none => rfl
    | some stage =>
      obtain ⟨d, -, hd, -⟩ := h.pasting g stage hs
      exact absurd hd (hnew d)
  have hnoted : Good (View.note { v with pasteWait := none } (.paste g data)) :=
    h.unwait.note (e := .paste g data) ⟨hnew, fun _ => ⟨hcombo, rfl⟩⟩
  have hcombo' : .combo g ∉ (View.note { v with pasteWait := none } (.paste g data)).log :=
    fun hg => hcombo (mem_of_note (v := { v with pasteWait := none }) hg fun he => (nomatch he))
  have hmem : .paste g data ∈ (View.note { v with pasteWait := none } (.paste g data)).log :=
    mem_append_right _ (by simp)
  cases hc : data.content with
  | none =>
    refine hnoted.note (e := .combo g) ⟨⟨hcombo', hpasting, rfl⟩, .inr ⟨data, hmem⟩, ?_⟩
    intro d content hd hdc
    rw [hnoted.unique g d data hd hmem, hc] at hdc
    cases hdc
  | some content =>
    obtain ⟨hclipboard, hsettled⟩ := hcontent (by rw [hc]; rfl)
    have hclipboard : (v.note (.paste g data)).clipboard = true := hclipboard
    cases content with
    | text text =>
      have himage := PasteData.image_of_text hc
      rw [View.finishPaste_text hclipboard]
      exact hnoted.write (hsettled (by rw [himage]; rfl)) hcombo' rfl hmem hc
    | png png =>
      rw [View.finishPaste_png hclipboard]
      exact hnoted.stage rfl hcombo' rfl ⟨data, .png png, hmem, hc, rfl⟩

theorem take {v' : View} {a : Tick} (hintime : InTime v a)
    (hstep : v.take a.what = some v') : Good v' := by
  obtain ⟨what, time⟩ := a
  cases what with
  | chord g again =>
    simp only [View.take, ite_none_left_eq_some, some.injEq, not_or,
      Bool.not_eq_true] at hstep
    obtain ⟨⟨hchord, hpasted⟩, rfl⟩ := hstep
    have hnoted := h.note (e := .chord g) trivial
    unfold View.onKeyDown
    split
    · rename_i hguard
      have hnone := isNone_iff_eq_none.mp hguard.2.2
      have hnew : ∀ data, .paste g data ∉ v.log := by
        intro d hd
        rw [View.pasted_iff.mpr ⟨d, hd⟩] at hpasted
        cases hpasted
      have hnot : .chord g ∉ v.log := by
        intro hg
        rw [View.chorded_iff.mpr hg] at hchord
        cases hchord
      refine hnoted.wait ⟨fun hg => ?_, ?_, ?_⟩ (mem_append_right _ (by simp))
        (fun d hd => hnew d (mem_of_note hd fun he => (nomatch he))) hnone
      · rcases h.known g (mem_of_note hg fun he => (nomatch he)) with hf | ⟨d, hd⟩
        · exact hnot (h.chorded g (.inr hf))
        · exact hnew d hd
      · cases hs : v.pasting[g]? with
        | none => exact hs
        | some stage =>
          obtain ⟨d, -, hd, -⟩ := h.pasting g stage hs
          exact absurd hd (hnew d)
      · rw [View.waits, hnone]
        rfl
    · exact hnoted
  | paste g data =>
    simp only [View.take, ite_none_left_eq_some, some.injEq, Bool.not_eq_true] at hstep
    obtain ⟨hpasted, rfl⟩ := hstep
    obtain ⟨htaken, hcontent⟩ := hintime
    have hnew : ∀ data, .paste g data ∉ v.log := by
      intro d hd
      rw [View.pasted_iff.mpr ⟨d, hd⟩] at hpasted
      cases hpasted
    unfold View.onPaste
    split
    · rename_i htakes
      have htakes : v.takes = true := htakes
      refine h.paste hnew (fun hf => ?_) fun hsome => ?_
      · rw [View.fired_iff.mpr hf] at htaken
        exact absurd (htaken htakes) (by decide)
      · have hc := hcontent hsome
        rwa [if_pos htakes] at hc
    rename_i htakes
    have htakes : ¬ v.takes = true := htakes
    refine h.note ⟨hnew, fun hsome => ?_⟩
    have hc := hcontent hsome
    rw [if_neg htakes] at hc
    refine ⟨fun hg => ?_, hc.2⟩
    rcases h.known g hg with hf | ⟨d, hd⟩
    · rw [View.fired_iff.mpr hf] at hc
      cases hc.1
    · exact hnew d hd
  | timer =>
    simp only [View.take] at hstep
    split at hstep
    · cases hstep
    rename_i g due hwait
    obtain ⟨-, rfl⟩ := guarded_not.mp hstep
    exact h.timer hwait
  | read g ok =>
    obtain ⟨rfl, hsettled⟩ := hintime
    simp only [View.take] at hstep
    split at hstep
    · rename_i png hstage
      cases hstep
      obtain ⟨data, content, hdata, hcontent, rfl⟩ := h.pasting g _ hstage
      obtain ⟨hcombo, hwaits⟩ := h.of_pasting hstage
      exact h.write hsettled hcombo hwaits hdata hcontent
    · cases hstep
  | answered g ok =>
    obtain ⟨rfl, -⟩ := hintime
    simp only [View.take] at hstep
    split at hstep
    · rename_i id hstage
      cases hstep
      obtain ⟨data, content, hdata, hcontent, habout⟩ := h.pasting g _ hstage
      have hnoted := h.note (e := .answered id true) trivial
      refine hnoted.finish hstage fun d c hd hdc => ⟨id, ?_, mem_append_right _ (by simp)⟩
      have hd : .paste g d ∈ v.log := mem_of_note hd fun he => (nomatch he)
      rw [h.unique g d data hd hdata, hcontent] at hdc
      cases hdc
      exact (lastWrite_concat rfl).trans habout
    · cases hstep
  | focus focused =>
    cases hstep
    exact h.same rfl rfl rfl
  | control mayInput =>
    cases hstep
    exact h.same rfl rfl rfl
  | clipboard ready =>
    cases hstep
    exact h.same rfl rfl rfl

end Good

/-- No Ctrl+V is sent while the view may not send input. -/
theorem take_combos {v v' : View} {a : Tick} (hintime : InTime v a) (hmay : v.mayInput = false)
    (hstep : v.take a.what = some v') : v'.combos = v.combos := by
  have hnote : ∀ {v : View} {e : Event}, e.isCombo = false → (v.note e).combos = v.combos := by
    intro v e he
    rw [View.combos, View.note, filter_append, filter_cons_of_neg (by simp [he]),
      filter_nil, append_nil]
    rfl
  obtain ⟨what, time⟩ := a
  cases what with
  | chord g again =>
    simp only [View.take, ite_none_left_eq_some, some.injEq] at hstep
    obtain ⟨-, rfl⟩ := hstep
    unfold View.onKeyDown
    split <;> exact hnote rfl
  | paste g data =>
    simp only [View.take, ite_none_left_eq_some, some.injEq] at hstep
    obtain ⟨-, rfl⟩ := hstep
    have htakes : (v.note (.paste g data)).takes = false := by
      have hmay : (v.note (.paste g data)).mayInput = false := hmay
      rw [View.takes, hmay, Bool.and_false, Bool.false_and]
    rw [View.onPaste, htakes]
    exact hnote rfl
  | timer => exact absurd (hmay.symm.trans hintime) (by decide)
  | read g ok =>
    obtain ⟨rfl, -⟩ := hintime
    simp only [View.take] at hstep
    split at hstep
    · cases hstep
      exact hnote rfl
    · cases hstep
  | answered g ok => exact absurd (hmay.symm.trans hintime.2) (by decide)
  | focus focused =>
    cases hstep
    rfl
  | control mayInput =>
    cases hstep
    rfl
  | clipboard ready =>
    cases hstep
    rfl

theorem good_init (clipboardOn : Bool) : Good { clipboardOn } where
  once := fun g => by simp [View.waits]
  known := fun g hg => (nomatch hg)
  chorded := fun g hg => hg.elim (fun hw => (nomatch hw)) fun hf => (nomatch hf)
  pasting := fun g stage hg => by simp at hg
  unique := fun g data data' hd => (nomatch hd)
  empty := fun g data hw => (nomatch hw)
  faithful := fun g data content hd => (nomatch hd)

/-- **The robot pastes what was pasted, once**, when everything is in
time: a gesture sends Ctrl+V at most once, after the write of what its
event carried was answered and before any other is asked for, and never
while the view may not send input. -/
theorem pastes_once {clipboardOn : Bool} {as : List Tick} {v : View}
    (hrun : (page clipboardOn).run { clipboardOn } as = some v)
    (hintime : (page clipboardOn).AllSteps InTime { clipboardOn } as) :
    (∀ g, v.log.count (.combo g) ≤ 1) ∧ Faithful v.log ∧
      (page clipboardOn).AllSteps (fun v a => v.mayInput = false →
        ∀ v', (page clipboardOn).step v a = some v' → v'.combos = v.combos) { clipboardOn } as := by
  have htake : ∀ {v v' : View} {a : Tick}, (page clipboardOn).step v a = some v' →
      { v with clock := a.time }.take a.what = some v' := fun hstep =>
    (ite_none_left_eq_some.mp hstep).2
  have hgood : Good v := by
    refine (page clipboardOn).run_induction (P := Good) (fun v a v' h hintime hstep => ?_)
      (good_init clipboardOn) hintime hrun
    have hclock : Good { v with clock := a.time } := h.same rfl rfl rfl
    exact hclock.take hintime (htake hstep)
  refine ⟨fun g => ?_, hgood.faithful, hintime.imp fun v a hintime hmay v' hstep => ?_⟩
  · have honce := hgood.once g
    omega
  · exact take_combos (v := { v with clock := a.time }) hintime hmay (htake hstep)

/-- A text and an empty clipboard. -/
theorem pastes_once_both :
    let as := [⟨.focus true, 0⟩, ⟨.control true, 0⟩, ⟨.clipboard true, 0⟩, ⟨.chord 1 false, 10⟩,
      ⟨.paste 1 { text := "hello" }, 11⟩, ⟨.answered 1 true, 40⟩, ⟨.chord 2 false, 500⟩,
      ⟨.timer, 800⟩]
    ∃ v, (page true).run { clipboardOn := true } as = some v ∧
      v.combos = [.combo 1, .combo 2] ∧ Faithful v.log := by
  intro as
  refine evaluated (·.combos) (b := [.combo 1, .combo 2]) (by decide +kernel)
    fun v hrun hcombos => ?_
  have hintime : (page true).AllSteps InTime { clipboardOn := true } as := by decide +kernel
  exact ⟨hcombos, (pastes_once hrun hintime).2.1⟩

/-- The browser's event comes after the timer: Ctrl+V is sent before
anything is written, and once more after. -/
theorem pasted_twice :
    ∃ v, (page true).run { clipboardOn := true } [⟨.focus true, 0⟩, ⟨.control true, 0⟩,
        ⟨.clipboard true, 0⟩, ⟨.chord 1 false, 10⟩, ⟨.timer, 310⟩,
        ⟨.paste 1 { text := "hello" }, 320⟩, ⟨.answered 1 true, 350⟩] = some v ∧
      v.log.count (.combo 1) = 2 ∧ ¬ Faithful v.log := by
  refine evaluated (·.log)
    (b := [.chord 1, .fired 1, .combo 1, .paste 1 { text := "hello" }, .write 0 (.text "hello"),
      .answered 0 true, .combo 1])
    (by decide +kernel) fun v hrun hlog => ?_
  refine ⟨by rw [hlog]; decide, fun hfaithful => ?_⟩
  rw [hlog] at hfaithful
  obtain ⟨id, hlast, -⟩ := hfaithful 1 { text := "hello" } (.text "hello") (by simp) rfl
    [.chord 1, .fired 1] ⟨_, rfl⟩
  cases hlast

end Fjarr.Web
