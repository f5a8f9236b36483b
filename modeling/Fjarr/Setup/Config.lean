/-
Fjarr.Setup.Config — `set_cap_value` and `restore_cap_value` (fjarr-setup,
config.rs): one key of a capability's table in the configuration set, and
put back by `--undo`.

A document is a tree of tables and values (`Fjarr.Lib.TableTree`). Comments,
spacing and the order of keys are left out, and a recorded value is the
value itself, which its text parses back to. A path that runs into a value
makes `set_cap_value` panic, `none` here.
-/
import Fjarr.Lib.TableTree
import Fjarr.Lib.Text

namespace Fjarr.Setup

open Lib TableTree

variable {V : Type}

abbrev Doc (V : Type) := TableTree (List Char) V

/-- The tables a dotted key of a capability is in. -/
def keyPath (cap key : List Char) : List (List Char) :=
  "capabilities".toList :: cap :: (key.splitOn '.').dropLast

/-- The last part of a dotted key. -/
def keyLast (key : List Char) : List Char := (key.splitOn '.').getLastD []

/-- `set_cap_value`. -/
def setCapValue (cap key : List Char) (new : V) (doc : Doc V) :
    Option (Doc V × Option (Doc V)) :=
  doc.setAt (keyLast key) new (keyPath cap key)

/-- `restore_cap_value`. -/
def restoreCapValue (cap key : List Char) (previous : Option (Doc V)) (doc : Doc V) : Doc V :=
  doc.restoreAt (keyLast key) previous (keyPath cap key)

/-! ## Several keys -/

/-- Keys set in turn, with the previous values recorded. -/
def setAll (cap : List Char) : List (List Char × V) → Doc V →
    Option (Doc V × List (List Char × Option (Doc V)))
  | [], doc => some (doc, [])
  | (key, new) :: edits, doc =>
    (setCapValue cap key new doc).bind fun r =>
    (setAll cap edits r.1).map fun r' => (r'.1, (key, r.2) :: r'.2)

/-- The recorded values put back, the last first. -/
def restoreAll (cap : List Char) (records : List (List Char × Option (Doc V))) (doc : Doc V) :
    Doc V :=
  records.foldr (fun r => restoreCapValue cap r.1 r.2) doc

/-- No key is set where the document has a table. -/
def Clear (cap : List Char) : List (List Char × V) → Doc V → Prop
  | [], _ => True
  | (key, new) :: edits, doc =>
    doc.find (keyPath cap key ++ [keyLast key]) ≠ some .table ∧
      ∀ doc' previous, setCapValue cap key new doc = some (doc', previous) → Clear cap edits doc'

theorem setAll_cons {cap key : List Char} {new : V} {edits : List (List Char × V)}
    {doc doc' : Doc V} {records : List (List Char × Option (Doc V))}
    (h : setAll cap ((key, new) :: edits) doc = some (doc', records)) :
    ∃ doc₁ previous records', setCapValue cap key new doc = some (doc₁, previous) ∧
      setAll cap edits doc₁ = some (doc', records') ∧ records = (key, previous) :: records' := by
  obtain ⟨⟨doc₁, previous⟩, hset, hrest⟩ := Option.bind_eq_some_iff.mp h
  obtain ⟨⟨doc'', records'⟩, hall, heq⟩ := Option.map_eq_some_iff.mp hrest
  obtain ⟨rfl, rfl⟩ := Prod.mk.inj heq
  exact ⟨doc₁, previous, records', hset, hall, rfl⟩

/-- Each restoration undoes its own edit around those of the later keys. -/
theorem restoreAll_undone {cap : List Char} {edits : List (List Char × V)} {doc doc' : Doc V}
    {records : List (List Char × Option (Doc V))} (h : setAll cap edits doc = some (doc', records))
    (hclear : Clear cap edits doc) :
    TableTree.Undone (edits.map fun e => keyPath cap e.1) doc (restoreAll cap records doc') ∧
      ∀ p, TableTree.Regular p doc → TableTree.Regular p (restoreAll cap records doc') := by
  induction edits generalizing doc records with
  | nil =>
    obtain ⟨rfl, rfl⟩ := Prod.mk.inj (Option.some.inj h)
    exact ⟨undone_nil doc, fun p hp => hp⟩
  | cons e edits ih =>
    obtain ⟨key, new⟩ := e
    obtain ⟨doc₁, previous, records', hset, hall, rfl⟩ := setAll_cons h
    obtain ⟨hnot, hrest⟩ := hclear
    obtain ⟨hundone, hregular⟩ := ih hall (hrest doc₁ previous hset)
    have hvalue : ∀ u ∈ previous, ∃ a, u = .value a := by
      intro u hu
      obtain ⟨rfl, -⟩ | ⟨a, rfl, -⟩ := previous_of_setAt hset hnot
      · exact absurd hu (by simp)
      · exact ⟨a, (Option.some.inj hu).symm⟩
    refine ⟨hundone.restoreAt hset hnot (hregular _ (regular_setAt_self hset)), ?_⟩
    intro p hp
    exact regular_restoreAt hvalue (hregular p (regular_setAt hset hp))

/-- The keys of a capability set in any order and put back in reverse leave
every value and every table as it was, but for the tables on the keys'
paths that held nothing but such tables, which are gone; and neither
operation changes anything but the tables on its path and its key. -/
theorem config_edits_undone {cap : List Char} {edits : List (List Char × V)} {doc doc' : Doc V}
    {records : List (List Char × Option (Doc V))} (h : setAll cap edits doc = some (doc', records))
    (hclear : Clear cap edits doc) :
    (∀ p, (doc.Hollow (edits.map fun e => keyPath cap e.1) p →
        (restoreAll cap records doc').find p = none) ∧
      (¬ doc.Hollow (edits.map fun e => keyPath cap e.1) p →
        (restoreAll cap records doc').find p = doc.find p)) ∧
    ∀ key p, ¬ p <+: keyPath cap key → ¬ keyPath cap key ++ [keyLast key] <+: p →
      (∀ new (d d' : Doc V) previous, setCapValue cap key new d = some (d', previous) →
        d'.find p = d.find p) ∧
      ∀ previous (d : Doc V), (restoreCapValue cap key previous d).find p = d.find p := by
  refine ⟨(restoreAll_undone h hclear).1, fun key p hpath hkey => ⟨?_, ?_⟩⟩
  · intro new d d' previous hset
    have hne : p ≠ keyPath cap key ++ [keyLast key] := by
      rintro rfl
      exact hkey (List.prefix_refl _)
    rw [find_setAt hset p (.inl hkey), if_neg hne, if_neg hpath]
  · intro previous d
    exact find_restoreAt_apart (keyLast key) previous hpath hkey

/-- A document with one capability, `fjarr.net`. -/
def netDoc (entries : List (List Char × Doc Nat)) : Doc Nat :=
  .table false [("capabilities".toList, .table false [("fjarr.net".toList, .table true entries)])]

/-- Two keys of a table written inline, one of them new and in a new table. -/
theorem config_edits_undone_net : ∃ doc' records,
    setAll "fjarr.net".toList [("mtu".toList, 1400), ("helper.user".toList, 1)]
      (netDoc [("mtu".toList, .value 1280)]) = some (doc', records) ∧
    (restoreAll "fjarr.net".toList records doc').find
        ["capabilities".toList, "fjarr.net".toList, "mtu".toList] = some (.value 1280) ∧
    (restoreAll "fjarr.net".toList records doc').find
        ["capabilities".toList, "fjarr.net".toList, "helper".toList] = none := by
  refine ⟨_, _, rfl, ?_⟩
  have hclear : Clear "fjarr.net".toList [("mtu".toList, 1400), ("helper.user".toList, 1)]
      (netDoc [("mtu".toList, .value 1280)]) := by
    refine ⟨by decide +kernel, fun doc' previous hset => ⟨?_, fun _ _ _ => trivial⟩⟩
    obtain ⟨rfl, -⟩ := Prod.mk.inj (Option.some.inj hset)
    decide +kernel
  have hundone := (config_edits_undone rfl hclear).1
  constructor
  · refine (hundone _).2 fun hollow => ?_
    exact absurd hollow.2.1 (by decide +kernel)
  · refine (hundone _).2 fun hollow => ?_
    exact absurd hollow.2.1 (by decide +kernel)

/-- The table of the capability was there and empty, and is gone, with the
one it was in. -/
theorem empty_table_pruned : ∃ doc' records,
    setAll "fjarr.net".toList [("enabled".toList, 1)] (netDoc []) = some (doc', records) ∧
    (netDoc []).find ["capabilities".toList, "fjarr.net".toList] = some .table ∧
    (restoreAll "fjarr.net".toList records doc').find ["capabilities".toList] = none :=
  ⟨_, _, rfl, rfl, rfl⟩

end Fjarr.Setup
