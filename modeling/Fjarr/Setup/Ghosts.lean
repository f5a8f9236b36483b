/-
Fjarr.Setup.Ghosts — ghost screens (fjarr-setup, display.rs): the
connectors, the kernel line's snippet, and `display add-ghost` and
`remove-ghost`.

The snippet is the one record of which ghosts exist: each command reads it,
and writes it again. An EDID is written where its firmware file is absent,
and no command removes one. `Store.configured` is the list the last command
configured, which none reads.

A `Machine` is what a command finds plugged in. The firmware files are
indexed by the number in their names. Failing writes, `update-grub` and
`setup desktop --ghost-screens`, which adds several at once, are left out.
-/
import Fjarr.Setup.Edid
import Fjarr.Lib.Transition

namespace Fjarr.Setup

open Lib Lib.Text List

/-! ## The kernel line -/

namespace Mode

/-- `DEFAULT_MODE`. -/
def default : Mode := { width := 1920, height := 1080, refresh := 60 }

def display (m : Mode) : List Char :=
  decimal m.width ++ 'x' :: decimal m.height ++ '@' :: decimal m.refresh

end Mode

structure Ghost where
  connector : List Char
  number : Nat
  mode : Mode
  deriving DecidableEq, Repr

namespace Ghost

def firmwareName (g : Ghost) : List Char :=
  "fjarr-ghost-".toList ++ decimal g.number ++ ".bin".toList

/-- The ghost in the snippet's `# fjarr-ghosts:` line. -/
def item (g : Ghost) : List Char :=
  g.connector ++ '=' :: (decimal g.number ++ ':' :: g.mode.display)

def video (g : Ghost) : List Char :=
  "video=".toList ++ g.connector ++ ':' :: g.mode.display ++ ['e']

def firmware (g : Ghost) : List Char := g.connector ++ ":edid/".toList ++ g.firmwareName

end Ghost

def marker : List Char := "# fjarr-ghosts:".toList

def snippetLines (ghosts : List Ghost) : List (List Char) :=
  ["# Written by `fjarr-agent display`: ghost screens, forced connectors with Fjarr EDIDs".toList,
   "# (docs/26#ghost-screens). Change with `fjarr-agent display add-ghost|remove-ghost`;".toList,
   "# undo with `fjarr-agent setup --undo desktop`.".toList,
   marker ++ ' ' :: [' '].intercalate (ghosts.map Ghost.item),
   "GRUB_CMDLINE_LINUX_DEFAULT=\"$GRUB_CMDLINE_LINUX_DEFAULT ".toList ++
     [' '].intercalate (ghosts.map Ghost.video) ++ " drm.edid_firmware=".toList ++
     [','].intercalate (ghosts.map Ghost.firmware) ++ ['"']]

/-- `grub_snippet`. -/
def grubSnippet (ghosts : List Ghost) : List Char := unlines (snippetLines ghosts)

def parseItem (item : List Char) : Option Ghost :=
  (splitOnce '=' item).bind fun (connector, rest) =>
  (splitOnce ':' rest).bind fun (number, mode) =>
  (parseU32 number).bind fun number =>
  (Mode.parse mode).toOption.map fun mode => { connector, number, mode }

/-- `parse_snippet`. -/
def parseSnippet (text : List Char) : List Ghost :=
  match (lines text).findSome? (·.dropPrefix? marker) with
  | none => []
  | some line => (splitWhitespace line).filterMap parseItem

/-- `booted_ghosts`. -/
def bootedGhosts (cmdline : List Char) : List (List Char) :=
  (((splitWhitespace cmdline).filterMap (·.dropPrefix? "video=".toList)).filter
    (·.getLast? = some 'e')).filterMap fun v => (splitOnce ':' v).map (·.1)

/-! ## Connectors -/

structure Connector where
  name : List Char
  connected : Bool
  /-- The root connector of the DisplayPort chain it hangs off. -/
  mstRoot : Option (List Char) := none
  /-- The monitor's name from its EDID. -/
  monitor : Option (List Char) := none
  /-- The name a sink gives over the connector's DDC bus. -/
  ddcMonitor : Option (List Char) := none
  deriving DecidableEq, Repr

inductive ConnectorState where
  | connected (monitor : List Char)
  | chain (monitors : List (List Char))
  | free
  | ghost (ghost : Ghost) (active : Bool) (realMonitor : Option (List Char))
  deriving DecidableEq, Repr

/-- The monitors of the chain on a connector. -/
def chainMembers (connectors : List Connector) (root : List Char) : List (List Char) :=
  (connectors.filter fun c => c.mstRoot = some root && c.connected).map fun c =>
    c.monitor.getD c.name

def connectorState (connectors : List Connector) (ghosts : List Ghost)
    (booted : List (List Char)) (c : Connector) : ConnectorState :=
  match ghosts.find? (·.connector = c.name) with
  | some g =>
    .ghost g (booted.contains c.name)
      (c.ddcMonitor.filter (· ≠ "Fjarr Ghost ".toList ++ decimal g.number))
  | none =>
    match chainMembers connectors c.name with
    | m :: ms => .chain (m :: ms)
    | [] =>
      -- a ghost removed in this boot, which the kernel still forces
      if booted.contains c.name && c.ddcMonitor.isNone then .free
      else if c.connected then .connected (c.monitor.getD "unknown monitor".toList)
      else .free

/-- `rows`: one per root connector. -/
def rows (connectors : List Connector) (ghosts : List Ghost) (booted : List (List Char)) :
    List (List Char × ConnectorState) :=
  (connectors.filter (·.mstRoot.isNone)).map fun c =>
    (c.name, connectorState connectors ghosts booted c)

/-- Why a row is not free. -/
def refusal (name : List Char) : ConnectorState → String
  | .ghost .. => String.ofList name ++ " is already a ghost"
  | .chain _ => String.ofList name ++
      " has a DisplayPort chain plugged in: a ghost there would replace the chain"
  | _ => String.ofList name ++
      " has a monitor plugged in: a ghost there would replace its EDID"

def noneLeft (rows : List (List Char × ConnectorState)) : String :=
  let ghosts := rows.countP fun r => r.2 matches .ghost ..
  "no free connector left: this machine can have " ++ toString ghosts ++ " ghost screen" ++
    (if ghosts = 1 then "" else "s") ++ " (one per free root connector; " ++
    "a chain's root and connectors with monitors are never used)"

/-- `pick_free`. -/
def pickFree (rows : List (List Char × ConnectorState)) (wanted : Option (List Char)) :
    Except String (List Char) :=
  match wanted with
  | some w =>
    match rows.find? (·.1 = w) with
    | none => .error ("no connector " ++ String.ofList w ++
        " on this machine (fjarr-agent display list shows them)")
    | some (_, .free) => .ok w
    | some (_, state) => .error (refusal w state)
  | none =>
    match rows.find? fun r => r.2 = .free && !("eDP".toList).isPrefixOf r.1 with
    | some (name, _) => .ok name
    | none => .error (noneLeft rows)

/-- The first number from 1 on that no ghost has. The source's numbers are
32 bits wide. -/
def freeNumber (ghosts : List Ghost) : Option Nat :=
  (List.range' 1 (ghosts.length + 1)).find? fun n =>
    n < 2 ^ 32 && !ghosts.any (·.number = n)

/-! ## Commands -/

/-- Kernel connector names: in no need of quoting. -/
def Plain (name : List Char) : Prop := name ≠ [] ∧ ∀ c ∈ name, isSpace c = false ∧ c ≠ '='

instance (name : List Char) : Decidable (Plain name) :=
  haveI := List.decidableBAll (fun c => isSpace c = false ∧ c ≠ '=') name
  inferInstanceAs (Decidable (name ≠ [] ∧ _))

/-- What a command finds. -/
structure Machine where
  connectors : List Connector
  cmdline : List Char := []
  /-- The root connectors a real monitor is plugged into. -/
  plugged : List (List Char) := []
  distinct : (connectors.map (·.name)).Nodup
  plain : ∀ c ∈ connectors, Plain c.name
  /-- The kernel reports a connector with a monitor as connected. -/
  shown : ∀ c ∈ connectors, c.name ∈ plugged → c.connected = true

def Machine.booted (m : Machine) : List (List Char) := bootedGhosts m.cmdline

structure Store where
  snippet : Option (List Char) := none
  firmware : Nat → Option Bytes := fun _ => none
  configured : List Ghost := []

def writeFirmware (firmware : Nat → Option Bytes) (g : Ghost) : Nat → Option Bytes :=
  if (firmware g.number).isSome then firmware
  else Function.update firmware g.number (some (edid g.number g.mode))

namespace Store

/-- `load_ghosts`. -/
def loadGhosts (s : Store) : List Ghost := (s.snippet.map parseSnippet).getD []

/-- `apply`. -/
def apply (s : Store) (ghosts : List Ghost) : Store where
  firmware := ghosts.foldl writeFirmware s.firmware
  snippet :=
    if ghosts = [] then s.snippet.map fun _ => marker ++ ['\n'] else some (grubSnippet ghosts)
  configured := ghosts

/-- The mode asked for. -/
def asked : Option (List Char) → Except String Mode
  | none => .ok Mode.default
  | some text => Mode.parse text

/-- `add_ghost`. -/
def addGhost (s : Store) (machine : Machine) (connector mode : Option (List Char)) :
    Except String Store :=
  match asked mode with
  | .error e => .error e
  | .ok mode =>
    let ghosts := s.loadGhosts
    match pickFree (rows machine.connectors ghosts machine.booted) connector with
    | .error e => .error e
    | .ok connector =>
      match freeNumber ghosts with
      | none => .error "a free number"
      | some number => .ok (s.apply (ghosts ++ [{ connector, number, mode }]))

def keep (ghosts : List Ghost) (which : List Char) : List Ghost :=
  if which = "all".toList then [] else ghosts.filter (·.connector ≠ which)

/-- `remove_ghost`. -/
def removeGhost (s : Store) (which : List Char) : Except String Store :=
  let ghosts := s.loadGhosts
  if (keep ghosts which).length = ghosts.length then
    .error (String.ofList which ++ " is not a ghost (fjarr-agent display list shows them)")
  else .ok (s.apply (keep ghosts which))

end Store

inductive Command where
  | addGhost (machine : Machine) (connector mode : Option (List Char))
  | removeGhost (which : List Char)

def Command.exec (s : Store) : Command → Except String Store
  | .addGhost machine connector mode => s.addGhost machine connector mode
  | .removeGhost which => s.removeGhost which

/-- A command that fails changes nothing. -/
def display : System Store Command where
  init := {}
  step s c := some ((c.exec s).toOption.getD s)

/-! ## Reading the snippet back -/

/-- What a snippet can hold. -/
structure Ghost.WellFormed (g : Ghost) : Prop where
  plain : Plain g.connector
  number : g.number < 2 ^ 32
  mode : g.mode.Supported

variable {m : Mode} {g : Ghost} {c : Char} {n : Nat} {ghosts : List Ghost} {name : List Char}
  {firmware : Nat → Option Bytes} {s s' : Store}

theorem Mode.parse_display (hm : m.Supported) : Mode.parse m.display = .ok m := by
  have hsize : '@' ∉ decimal m.width ++ 'x' :: decimal m.height := by
    simp [not_mem_decimal (c := '@') rfl]
  have hx : 'x' ∉ decimal m.width := not_mem_decimal rfl _
  obtain ⟨⟨hw, hw'⟩, ⟨hh, hh'⟩, hr, hr'⟩ := hm
  have hsplit : splitOnce '@' m.display =
      some (decimal m.width ++ 'x' :: decimal m.height, decimal m.refresh) := by
    rw [Mode.display]
    exact splitOnce_append _ hsize
  simp only [Mode.parse, hsplit, Option.getD_some, splitOnce_append _ hx,
    parseU32_decimal (by omega : m.width < 2 ^ 32),
    parseU32_decimal (by omega : m.height < 2 ^ 32),
    parseU32_decimal (by omega : m.refresh < 2 ^ 32)]
  exact if_pos ⟨⟨hw, hw'⟩, ⟨hh, hh'⟩, hr, hr'⟩

theorem parseItem_item (hg : g.WellFormed) : parseItem g.item = some g := by
  have heq : '=' ∉ g.connector := fun h => (hg.plain.2 _ h).2 rfl
  have hcolon : ':' ∉ decimal g.number := not_mem_decimal rfl _
  simp [parseItem, Ghost.item, splitOnce_append _ heq, splitOnce_append _ hcolon,
    parseU32_decimal hg.number, Mode.parse_display hg.mode, Except.toOption]

theorem isSpace_of_isDigit (h : isDigit c = true) : isSpace c = false := by
  simp only [isDigit, Bool.and_eq_true, decide_eq_true_eq] at h
  simp only [isSpace, Bool.or_eq_false_iff, Bool.and_eq_false_iff, decide_eq_false_iff_not]
  omega

theorem not_space_decimal (h : c ∈ decimal n) : isSpace c = false :=
  isSpace_of_isDigit (isDigit_of_mem_decimal h)

theorem not_space_display (h : c ∈ m.display) : isSpace c = false := by
  simp only [Mode.display, append_assoc, cons_append, mem_append,
    mem_cons] at h
  rcases h with h | rfl | h | rfl | h
  · exact not_space_decimal h
  · rfl
  · exact not_space_decimal h
  · rfl
  · exact not_space_decimal h

theorem not_space_item (hg : g.WellFormed) (h : c ∈ g.item) :
    isSpace c = false := by
  simp only [Ghost.item, mem_append, mem_cons] at h
  rcases h with h | rfl | h | rfl | h
  · exact (hg.plain.2 c h).1
  · rfl
  · exact not_space_decimal h
  · rfl
  · exact not_space_display h

theorem inline_of_not_space {s : List Char} (h : ∀ c ∈ s, isSpace c = false) : Inline s :=
  fun c hc => .inr (h c hc)

theorem inline_snippet (hg : ∀ g ∈ ghosts, g.WellFormed) :
    Inline (marker ++ ' ' :: [' '].intercalate (ghosts.map Ghost.item)) ∧
      Inline ("GRUB_CMDLINE_LINUX_DEFAULT=\"$GRUB_CMDLINE_LINUX_DEFAULT ".toList ++
        [' '].intercalate (ghosts.map Ghost.video) ++ " drm.edid_firmware=".toList ++
        [','].intercalate (ghosts.map Ghost.firmware) ++ ['"']) := by
  have hconnector : ∀ g ∈ ghosts, Inline g.connector := fun g h =>
    inline_of_not_space fun c hc => ((hg g h).plain.2 c hc).1
  have hitems : ∀ s ∈ ghosts.map Ghost.item, Inline s := by
    intro s hs
    obtain ⟨g, h, rfl⟩ := mem_map.mp hs
    exact inline_of_not_space fun c => not_space_item (hg g h)
  have hvideos : ∀ s ∈ ghosts.map Ghost.video, Inline s := by
    intro s hs
    obtain ⟨g, h, rfl⟩ := mem_map.mp hs
    have hdisplay : Inline (':' :: g.mode.display) :=
      (by decide +kernel : Inline [':']).append (inline_of_not_space fun c => not_space_display)
    have hvideo : Inline "video=".toList := by decide +kernel
    exact ((hvideo.append (hconnector g h)).append hdisplay).append (by decide +kernel)
  have hfirmwares : ∀ s ∈ ghosts.map Ghost.firmware, Inline s := by
    intro s hs
    obtain ⟨g, h, rfl⟩ := mem_map.mp hs
    have hnumber : Inline (decimal g.number) := inline_of_not_space fun c => not_space_decimal
    have hname : Inline g.firmwareName :=
      ((by decide +kernel : Inline "fjarr-ghost-".toList).append hnumber).append (by decide +kernel)
    exact ((hconnector g h).append (by decide +kernel)).append hname
  constructor
  · exact (by decide +kernel : Inline marker).append
      ((by decide +kernel : Inline [' ']).append (.intercalate (by decide +kernel) hitems))
  have hvideo : Inline ([' '].intercalate (ghosts.map Ghost.video)) :=
    .intercalate (by decide +kernel) hvideos
  have hfirmware : Inline ([','].intercalate (ghosts.map Ghost.firmware)) :=
    .intercalate (by decide +kernel) hfirmwares
  have hquoted := hfirmware.append (by decide +kernel : Inline ['"'])
  refine fun c hc => ?_
  rw [append_assoc] at hc
  exact (((by decide +kernel : Inline _).append hvideo).append (by decide +kernel)).append
    hquoted c hc

theorem parseSnippet_grubSnippet (hne : ghosts ≠ [])
    (hg : ∀ g ∈ ghosts, g.WellFormed) : parseSnippet (grubSnippet ghosts) = ghosts := by
  obtain ⟨hghosts, hkernel⟩ := inline_snippet hg
  have hlines : lines (grubSnippet ghosts) = snippetLines ghosts := by
    refine lines_unlines fun l hl => ?_
    simp only [snippetLines, mem_cons, not_mem_nil, or_false] at hl
    rcases hl with rfl | rfl | rfl | rfl | rfl
    · decide +kernel
    · decide +kernel
    · decide +kernel
    · exact hghosts
    · exact hkernel
  have hfound : (lines (grubSnippet ghosts)).findSome? (·.dropPrefix? marker) =
      some ((ghosts.map Ghost.item).flatMap (' ' :: ·)) := by
    rw [hlines, ← cons_intercalate (by simpa using hne), snippetLines,
      findSome?_cons_of_isNone (by decide +kernel),
      findSome?_cons_of_isNone (by decide +kernel),
      findSome?_cons_of_isNone (by decide +kernel), findSome?_cons,
      dropPrefix?_append_of_beq _ BEq.rfl]
  have hitems : ∀ s ∈ ghosts.map Ghost.item, s ≠ [] ∧ ∀ c ∈ s, isSpace c = false := by
    intro s hs
    obtain ⟨g, h, rfl⟩ := mem_map.mp hs
    exact ⟨by simp [Ghost.item], fun c => not_space_item (hg g h)⟩
  rw [parseSnippet, hfound]
  dsimp only
  rw [splitWhitespace_flatMap (fun s hs => (hitems s hs).1) (fun s hs => (hitems s hs).2),
    filterMap_map]
  refine (filterMap_congr fun g h => ?_).trans (filterMap_some (l := ghosts))
  exact parseItem_item (hg g h)

theorem parseSnippet_marker : parseSnippet (marker ++ ['\n']) = [] := by decide +kernel

/-! ## Free connectors and numbers -/

/-- Nobody has the connector: no ghost, no chain, and no monitor the kernel
or the DDC bus tells of. -/
theorem free_row {connectors : List Connector} {booted : List (List Char)}
    (h : (name, .free) ∈ rows connectors ghosts booted) :
    (∀ g ∈ ghosts, g.connector ≠ name) ∧ chainMembers connectors name = [] ∧
      ∃ c ∈ connectors, c.name = name ∧
        (name ∈ booted ∧ c.ddcMonitor = none ∨ c.connected = false) := by
  obtain ⟨c, hc, heq⟩ := mem_map.mp h
  obtain ⟨rfl, hstate⟩ := Prod.mk.inj heq
  have hmem := (mem_filter.mp hc).1
  unfold connectorState at hstate
  split at hstate
  · cases hstate
  rename_i hnone
  have hghosts : ∀ g ∈ ghosts, g.connector ≠ c.name := by
    simpa using hnone
  split at hstate
  · cases hstate
  rename_i hchain
  refine ⟨hghosts, hchain, c, hmem, rfl, ?_⟩
  split at hstate
  · rename_i hforced
    simp only [Bool.and_eq_true, contains_iff_mem, Option.isNone_iff_eq_none] at hforced
    exact .inl hforced
  split at hstate
  · cases hstate
  · rename_i hconnected
    exact .inr (by simpa using hconnected)

theorem pickFree_free {rs : List (List Char × ConnectorState)} {wanted : Option (List Char)}
    (h : pickFree rs wanted = .ok name) : (name, .free) ∈ rs := by
  cases wanted with
  | some w =>
    simp only [pickFree] at h
    split at h
    · cases h
    · rename_i n hfind
      cases h
      have hn : n = name := by simpa using find?_some hfind
      exact hn ▸ mem_of_find?_eq_some hfind
    · cases h
  | none =>
    simp only [pickFree] at h
    split at h
    · rename_i n state hfind
      cases h
      have hstate : state = .free := by
        have hpred := find?_some hfind
        simp only [Bool.and_eq_true, decide_eq_true_eq] at hpred
        exact hpred.1
      exact hstate ▸ mem_of_find?_eq_some hfind
    · cases h

theorem freeNumber_spec (h : freeNumber ghosts = some n) :
    n < 2 ^ 32 ∧ ∀ g ∈ ghosts, g.number ≠ n := by
  have hpred := find?_some h
  simpa using hpred

/-! ## The three stores -/

theorem writeFirmware_self
    (h : firmware g.number = none ∨ firmware g.number = some (edid g.number g.mode)) :
    writeFirmware firmware g g.number = some (edid g.number g.mode) := by
  unfold writeFirmware
  obtain h | h := h
  · rw [h, if_neg (by simp), Function.update_self]
  · rw [h, if_pos (by simp), h]

theorem writeFirmware_of_ne
    (h : n ≠ g.number) : writeFirmware firmware g n = firmware n := by
  unfold writeFirmware
  split
  · rfl
  · exact Function.update_of_ne h _ _

theorem foldl_writeFirmware_some
    {e : Bytes} (h : firmware n = some e) : ghosts.foldl writeFirmware firmware n = some e := by
  induction ghosts generalizing firmware with
  | nil => exact h
  | cons g rest ih =>
    refine ih ?_
    by_cases hn : n = g.number
    · subst hn
      rw [writeFirmware, if_pos (by simp [h]), h]
    · rw [writeFirmware_of_ne hn, h]

theorem foldl_writeFirmware
    (hnumbers : (ghosts.map (·.number)).Nodup)
    (h : ∀ g ∈ ghosts, firmware g.number = none ∨
      firmware g.number = some (edid g.number g.mode)) :
    ∀ g ∈ ghosts, ghosts.foldl writeFirmware firmware g.number =
      some (edid g.number g.mode) := by
  induction ghosts generalizing firmware with
  | nil => exact nofun
  | cons g rest ih =>
    rw [map_cons, nodup_cons] at hnumbers
    intro g' hg'
    obtain rfl | hg' := mem_cons.mp hg'
    · rw [foldl_cons]
      exact foldl_writeFirmware_some (writeFirmware_self (h g' (.head _)))
    refine ih hnumbers.2 (fun g'' hg'' => ?_) g' hg'
    have hne : g''.number ≠ g.number := fun heq =>
      hnumbers.1 (heq ▸ mem_map_of_mem hg'')
    rw [writeFirmware_of_ne hne]
    exact h g'' (.tail _ hg'')

/-- The configured ghosts, the snippet and the firmware files agree. -/
structure Store.Consistent (s : Store) : Prop where
  wellFormed : ∀ g ∈ s.configured, g.WellFormed
  connectors : (s.configured.map (·.connector)).Nodup
  numbers : (s.configured.map (·.number)).Nodup
  firmware : ∀ g ∈ s.configured, s.firmware g.number = some (edid g.number g.mode)
  readBack : s.loadGhosts = s.configured

open Store

theorem Store.loadGhosts_apply (s : Store)
    (hwf : ∀ g ∈ ghosts, g.WellFormed) : (s.apply ghosts).loadGhosts = ghosts := by
  by_cases hnil : ghosts = []
  · subst hnil
    cases hsnippet : s.snippet with
    | none => simp [loadGhosts, apply, hsnippet]
    | some text => simp [loadGhosts, apply, hsnippet, parseSnippet_marker]
  · simp [loadGhosts, apply, hnil, parseSnippet_grubSnippet hnil hwf]

theorem Store.apply_consistent (s : Store)
    (hwf : ∀ g ∈ ghosts, g.WellFormed) (hconnectors : (ghosts.map (·.connector)).Nodup)
    (hnumbers : (ghosts.map (·.number)).Nodup)
    (hfirmware : ∀ g ∈ ghosts, s.firmware g.number = none ∨
      s.firmware g.number = some (edid g.number g.mode)) : (s.apply ghosts).Consistent :=
  ⟨hwf, hconnectors, hnumbers, foldl_writeFirmware hnumbers hfirmware, s.loadGhosts_apply hwf⟩

theorem Store.asked_supported {text : Option (List Char)}
    (h : Store.asked text = .ok m) : m.Supported := by
  cases text with
  | none =>
    obtain rfl := Except.ok.inj h
    decide
  | some text => exact Mode.supported_of_parse h

theorem Store.addGhost_cases {machine : Machine}
    {connector mode : Option (List Char)} (h : s.addGhost machine connector mode = .ok s') :
    ∃ g : Ghost, Store.asked mode = .ok g.mode ∧
      (g.connector, .free) ∈ rows machine.connectors s.loadGhosts machine.booted ∧
      freeNumber s.loadGhosts = some g.number ∧ s' = s.apply (s.loadGhosts ++ [g]) := by
  unfold addGhost at h
  split at h
  · cases h
  rename_i m hm
  dsimp only at h
  split at h
  · cases h
  rename_i name hname
  split at h
  · cases h
  rename_i n hn
  cases h
  exact ⟨⟨name, n, m⟩, hm, pickFree_free hname, hn, rfl⟩

theorem Store.removeGhost_cases {which : List Char}
    (h : s.removeGhost which = .ok s') :
    ∃ keep, keep.Sublist s.loadGhosts ∧ s' = s.apply keep := by
  unfold removeGhost at h
  dsimp only at h
  split at h
  · cases h
  cases h
  refine ⟨_, ?_, rfl⟩
  unfold keep
  split
  · exact nil_sublist _
  · exact filter_sublist

/-- The firmware file that the free number's last ghost left behind, if there
is one, is of the mode asked for. -/
def Store.SameMode (s : Store) (mode : Option (List Char)) : Prop :=
  match Store.asked mode, freeNumber s.loadGhosts with
  | .ok m, some n => s.firmware n = none ∨ s.firmware n = some (edid n m)
  | _, _ => True

/-- Monitors on connectors this boot forces answer over DDC. -/
def Machine.Answering (machine : Machine) : Prop :=
  ∀ c ∈ machine.connectors, c.name ∈ machine.booted → c.name ∈ machine.plugged →
    c.ddcMonitor ≠ none

/-- What adding a ghost needs. -/
def Careful (s : Store) : Command → Prop
  | .addGhost machine _ mode => s.SameMode mode ∧ machine.Answering
  | .removeGhost _ => True

instance (machine : Machine) : Decidable machine.Answering :=
  inferInstanceAs (Decidable (∀ c ∈ machine.connectors, _))

/-- The connector has no monitor and no chain. -/
def Command.Vacant (name : List Char) : Command → Prop
  | .addGhost machine _ _ =>
    name ∉ machine.plugged ∧ chainMembers machine.connectors name = []
  | .removeGhost _ => False

theorem Machine.vacant {machine : Machine}
    (hfree : (name, .free) ∈ rows machine.connectors ghosts machine.booted)
    (hddc : machine.Answering) :
    (∀ g ∈ ghosts, g.connector ≠ name) ∧ name ∉ machine.plugged ∧
      chainMembers machine.connectors name = [] ∧ Plain name := by
  obtain ⟨hghosts, hchain, c, hc, rfl, hstate⟩ := free_row hfree
  refine ⟨hghosts, fun hplugged => ?_, hchain, machine.plain c hc⟩
  obtain ⟨hbooted, hnone⟩ | hoff := hstate
  · exact hddc c hc hbooted hplugged hnone
  · rw [machine.shown c hc hplugged] at hoff
    exact Bool.noConfusion hoff

theorem consistent_step {c : Command} (hs : s.Consistent) (hc : Careful s c)
    (h : display.step s c = some s') : s'.Consistent := by
  cases h
  cases hexec : c.exec s with
  | error e => exact hs
  | ok t =>
    cases c with
    | addGhost machine connector mode =>
      obtain ⟨g, hmode, hfree, hnumber, rfl⟩ := addGhost_cases hexec
      obtain ⟨hghosts, -, -, hplain⟩ := Machine.vacant hfree hc.2
      have hfile := hc.1
      rw [Store.SameMode, hmode, hnumber] at hfile
      obtain ⟨hlt, hnumbers⟩ := freeNumber_spec hnumber
      rw [hs.readBack] at hghosts hnumbers ⊢
      refine apply_consistent s (fun g' hg' => ?_) ?_ ?_ fun g' hg' => ?_
      · obtain hg' | rfl := mem_snoc.mp hg'
        · exact hs.wellFormed g' hg'
        · exact ⟨hplain, hlt, asked_supported hmode⟩
      · rw [map_append, map_singleton]
        exact hs.connectors.append (nodup_singleton _) (by simpa using hghosts)
      · rw [map_append, map_singleton]
        exact hs.numbers.append (nodup_singleton _) (by simpa using hnumbers)
      obtain hg' | rfl := mem_snoc.mp hg'
      · exact .inr (hs.firmware g' hg')
      · exact hfile
    | removeGhost which =>
      obtain ⟨keep, hsub, rfl⟩ := removeGhost_cases hexec
      rw [hs.readBack] at hsub
      exact apply_consistent s (fun g hg => hs.wellFormed g (hsub.subset hg))
        (hs.connectors.sublist (hsub.map _)) (hs.numbers.sublist (hsub.map _))
        fun g hg => .inr (hs.firmware g (hsub.subset hg))

/-- A ghost that a command configures is on a connector that was vacant. -/
theorem placed_vacant {c : Command} (hs : s.Consistent) (hc : Careful s c)
    (h : display.step s c = some s') (hg : g ∈ s'.configured)
    (hnew : g ∉ s.configured) :
    c.Vacant g.connector ∧ ∀ g' ∈ s.configured, g'.connector ≠ g.connector := by
  cases h
  cases hexec : c.exec s with
  | error e =>
    rw [hexec] at hg
    exact absurd hg hnew
  | ok t =>
    rw [hexec] at hg
    change g ∈ t.configured at hg
    cases c with
    | addGhost machine connector mode =>
      obtain ⟨g', -, hfree, -, rfl⟩ := addGhost_cases hexec
      obtain ⟨hghosts, hplugged, hchain, -⟩ := Machine.vacant hfree hc.2
      rw [hs.readBack] at hghosts
      have hg' : g = g' := by
        simp only [apply, hs.readBack, mem_append, mem_singleton] at hg
        exact hg.resolve_left hnew
      rw [hg']
      exact ⟨⟨hplugged, hchain⟩, hghosts⟩
    | removeGhost which =>
      obtain ⟨keep, hsub, rfl⟩ := removeGhost_cases hexec
      rw [hs.readBack] at hsub
      exact absurd (hsub.subset hg) hnew

/-- From no ghosts and no firmware files, careful commands keep the
connectors and the numbers apart, every ghost's firmware file its own EDID
and the snippet the list; and each puts its ghost on a vacant connector. -/
theorem ghosts_on_kernel_line {s₀ s : Store} {cs : List Command} (hload : s₀.loadGhosts = [])
    (hnone : s₀.configured = []) (hcs : display.AllSteps Careful s₀ cs)
    (hrun : display.run s₀ cs = some s) :
    s.Consistent ∧ ∀ c s', Careful s c → display.step s c = some s' →
      ∀ g ∈ s'.configured, g ∉ s.configured →
        c.Vacant g.connector ∧ ∀ g' ∈ s.configured, g'.connector ≠ g.connector := by
  have hstart : s₀.Consistent := by
    refine ⟨?_, ?_, ?_, ?_, hload.trans hnone.symm⟩ <;> simp [hnone]
  have hs : s.Consistent :=
    display.run_induction (fun t c t' ht hc h => consistent_step ht hc h) hstart hcs hrun
  exact ⟨hs, fun c s' hc h g hg hnew => placed_vacant hs hc h hg hnew⟩

/-- A machine with one free connector. -/
def oneFree : Machine where
  connectors := [{ name := "DP-1".toList, connected := false }]
  distinct := by decide
  plain := by decide +kernel
  shown := by decide

def firstGhost (mode : Mode) : Ghost := { connector := "DP-1".toList, number := 1, mode }

theorem firstGhost_wellFormed {mode : Mode} (h : mode.Supported) :
    (firstGhost mode).WellFormed :=
  ⟨(by decide +kernel : Plain "DP-1".toList), (by decide : 1 < 2 ^ 32), h⟩

/-- Its first ghost, added and removed. -/
def placed : Store := Store.apply {} [firstGhost Mode.default]

def removed : Store := placed.apply []

theorem step_placed : display.step {} (.addGhost oneFree none none) = some placed := rfl

theorem step_removed : display.step placed (.removeGhost "DP-1".toList) = some removed := by
  have hload : placed.loadGhosts = [firstGhost Mode.default] :=
    loadGhosts_apply {} (by simpa using firstGhost_wellFormed (by decide))
  simp only [display, Command.exec, removeGhost, hload]
  rfl

theorem step_again {text : Option (List Char)} {mode : Mode} (h : Store.asked text = .ok mode) :
    display.step removed (.addGhost oneFree none text) =
      some (removed.apply [firstGhost mode]) := by
  have hload : removed.loadGhosts = [] := loadGhosts_apply placed (by simp)
  simp only [display, Command.exec, addGhost, h, hload]
  rfl

/-- A ghost, removed and added again in the same mode. -/
theorem ghosts_on_kernel_line_again :
    ∃ s, display.run {} [.addGhost oneFree none none, .removeGhost "DP-1".toList,
        .addGhost oneFree none (some "1920x1080@60".toList)] = some s ∧
      s.configured = [firstGhost Mode.default] ∧ s.Consistent := by
  have hmode : asked (some "1920x1080@60".toList) = .ok Mode.default := by decide +kernel
  have hload : removed.loadGhosts = [] := loadGhosts_apply placed (by simp)
  have hrun : display.run {} [.addGhost oneFree none none, .removeGhost "DP-1".toList,
      .addGhost oneFree none (some "1920x1080@60".toList)] =
        some (removed.apply [firstGhost Mode.default]) := by
    simp only [System.run, step_placed, step_removed, step_again hmode, Option.bind_some]
  have hcareful : display.AllSteps Careful {} [.addGhost oneFree none none,
      .removeGhost "DP-1".toList, .addGhost oneFree none (some "1920x1080@60".toList)] := by
    refine ⟨⟨.inl rfl, by decide⟩, fun s hs => ⟨trivial, fun t ht => ⟨⟨?_, by decide⟩, fun _ _ =>
      trivial⟩⟩⟩
    cases hs.symm.trans step_placed
    cases ht.symm.trans step_removed
    rw [Store.SameMode, hmode, hload]
    exact .inr rfl
  exact ⟨_, hrun, rfl, (ghosts_on_kernel_line rfl rfl hcareful hrun).1⟩

/-- A machine whose `DP-1` this boot forces, with a monitor that does not
answer over DDC. -/
def silentMonitor : Machine where
  connectors := [{ name := "DP-1".toList, connected := true }]
  cmdline := "video=DP-1:1920x1080@60e".toList
  plugged := ["DP-1".toList]
  distinct := by decide
  plain := by decide +kernel
  shown := by decide

/-- A ghost removed and added in another mode keeps its number's old EDID;
and a ghost goes on a forced connector whose monitor is silent. -/
theorem ghost_keeps_old_edid :
    (∃ s, display.run {} [.addGhost oneFree none none, .removeGhost "DP-1".toList,
        .addGhost oneFree none (some "1280x720".toList)] = some s ∧
      s.configured = [firstGhost { width := 1280, height := 720, refresh := 60 }] ∧
      s.firmware 1 = some (edid 1 Mode.default) ∧
      edid 1 Mode.default ≠ edid 1 { width := 1280, height := 720, refresh := 60 }) ∧
    ∃ s, display.run {} [.addGhost silentMonitor none none] = some s ∧
      s.configured = [firstGhost Mode.default] ∧ "DP-1".toList ∈ silentMonitor.plugged := by
  have hmode : asked (some "1280x720".toList) =
      .ok { width := 1280, height := 720, refresh := 60 } := by decide +kernel
  constructor
  · refine ⟨removed.apply [firstGhost { width := 1280, height := 720, refresh := 60 }], ?_, rfl,
      ?_, by decide +kernel⟩
    · simp only [System.run, step_placed, step_removed, step_again hmode, Option.bind_some]
    · exact foldl_writeFirmware_some rfl
  · exact ⟨_, rfl, rfl, by decide⟩

end Fjarr.Setup
