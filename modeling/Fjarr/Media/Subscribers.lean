/-
Fjarr.Media.Subscribers — who is subscribed in the hub.

`sinks` reads the subscribers of a (track, tier) off the hub's entry, and
`subscriber_count`, which the media plane goes by, is their number
(`Counted`). `subscribe` adds a sink at the end, `unsubscribe` takes it
out, `clear` leaves it, and no (track, tier) but the one named changes.
The sinks here are owned by sessions that unsubscribe before they let go,
so none has expired.
-/
import Fjarr.Media.Plane

namespace Fjarr.Media

namespace FrameHub

/-- The sinks subscribed to a (track, tier). -/
def sinks (h : FrameHub) (key : HubKey) : List Sink := (h.entry key).subs.map (·.sink)

/-- No sink has expired, and the counts are those of the subscribers. -/
structure Counted (h : FrameHub) : Prop where
  owned : ∀ s, h.expired s = false
  count : ∀ key, (h.entry key).stats.subscribers = (h.sinks key).length

theorem counted_new (ringSize : Nat) : Counted { ringSize } :=
  ⟨fun _ => rfl, fun _ => rfl⟩

theorem entry_setEntry (h : FrameHub) (key k : HubKey) (e : Entry) :
    (h.setEntry key e).entry k = if k = key then e else h.entry k := by
  by_cases hk : k = key
  · subst hk
    simp [entry, setEntry]
  · simp [entry, setEntry, hk]

variable {h : FrameHub}

theorem entry_of_none {key : HubKey} (hnone : h.entries key = none) :
    h.entry key = {} := by
  rw [entry, hnone, Option.getD_none]

theorem entry_of_some {key : HubKey} {e : Entry} (hsome : h.entries key = some e) :
    h.entry key = e := by
  rw [entry, hsome, Option.getD_some]

namespace Counted

variable {h : FrameHub}

variable (hc : h.Counted) (key : HubKey)
include hc

theorem subscriberCount :
    h.subscriberCount key = (h.sinks key).length := by
  rw [← hc.count key, FrameHub.subscriberCount]
  split
  · rename_i hnone
    rw [entry_of_none hnone]
  · rename_i e hsome
    rw [entry_of_some hsome]

theorem subscriberCount_pos :
    0 < h.subscriberCount key ↔ h.sinks key ≠ [] := by
  rw [hc.subscriberCount, List.length_pos_iff]

theorem setEntry {e : Entry}
    (he : e.stats.subscribers = e.subs.length) : (h.setEntry key e).Counted := by
  refine ⟨hc.owned, fun k => ?_⟩
  rw [sinks, List.length_map, entry_setEntry]
  split
  · exact he
  · rw [hc.count k, sinks, List.length_map]

theorem subscribe (sink : Sink) : (h.subscribe key sink).Counted :=
  -- the second half only touches the queue
  have hregister : (h.subscribeRegister key sink).1.Counted := hc.setEntry key rfl
  ⟨hregister.owned, hregister.count⟩

theorem unsubscribe (sink : Sink) :
    (h.unsubscribe key sink).Counted := by
  unfold FrameHub.unsubscribe
  split
  · exact hc
  · exact hc.setEntry key rfl

theorem clear : (h.clear key).Counted := by
  unfold FrameHub.clear
  split
  · exact hc
  rename_i e hsome
  refine hc.setEntry key ?_
  have hcount := hc.count key
  rw [sinks, entry_of_some hsome, List.length_map] at hcount
  simpa using hcount

end Counted

theorem sinks_setEntry (h : FrameHub) (key k : HubKey) (e : Entry) :
    (h.setEntry key e).sinks k = if k = key then e.subs.map (·.sink) else h.sinks k := by
  rw [sinks, entry_setEntry]
  split <;> rfl

theorem sinks_subscribe (hc : h.Counted) (key k : HubKey) (sink : Sink) :
    (h.subscribe key sink).sinks k = if k = key then h.sinks key ++ [sink] else h.sinks k := by
  have hregister : (h.subscribe key sink).sinks k = (h.subscribeRegister key sink).1.sinks k := rfl
  rw [hregister]
  refine (sinks_setEntry ..).trans ?_
  simp [hc.owned, sinks]

theorem sinks_unsubscribe (hc : h.Counted) (key k : HubKey) (sink : Sink) :
    (h.unsubscribe key sink).sinks k =
      if k = key then (h.sinks key).filter (· ≠ sink) else h.sinks k := by
  unfold unsubscribe
  split
  · rename_i hnone
    split
    · rename_i hk
      subst hk
      simp [sinks, entry_of_none hnone]
    · rfl
  rename_i e hsome
  rw [sinks_setEntry]
  split
  · rw [sinks, entry_of_some hsome, List.filter_map]
    simp [hc.owned, Function.comp_def, beq_eq_decide]
  · rfl

@[simp] theorem sinks_clear (h : FrameHub) (key k : HubKey) :
    (h.clear key).sinks k = h.sinks k := by
  unfold clear
  split
  · rfl
  rename_i e hsome
  rw [sinks_setEntry]
  split
  · rename_i hk
    subst hk
    simp [sinks, entry_of_some hsome, Function.comp_def, Sub.wait]
  · rfl

theorem entry_clearAll (h : FrameHub) (gone : HubKey → Bool) (k : HubKey) :
    (h.clearAll gone).entry k = if gone k then (h.clear k).entry k else h.entry k := by
  unfold entry clearAll
  dsimp only
  split <;> rfl

theorem sinks_clearAll (h : FrameHub) (gone : HubKey → Bool) (k : HubKey) :
    (h.clearAll gone).sinks k = h.sinks k := by
  rw [sinks, entry_clearAll]
  split
  · exact sinks_clear h k k
  · rfl

theorem Counted.clearAll (hc : h.Counted) (gone : HubKey → Bool) : (h.clearAll gone).Counted := by
  refine ⟨hc.owned, fun k => ?_⟩
  rw [sinks_clearAll, entry_clearAll]
  split
  · rw [(hc.clear k).count, sinks_clear]
  · exact hc.count k

end FrameHub

end Fjarr.Media
