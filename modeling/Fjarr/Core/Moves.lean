/-
Fjarr.Core.Moves — what an action does to a session.

Every action but `attach` and `update_tracks` is one move of the session it
is about (`Moves`): something made of demands, a reply of webrtcbin's, an
answer, or the end. `update_tracks` drops tracks (`Session.without`), adds
others (`Joins`) and then asks for an offer; `attach` adds and asks. What
survives these survives every step (`sessions_step`).
-/
import Fjarr.Core.Seats

namespace Fjarr.Core

open Lib Media List Option

/-! ## Tracks come and go -/

/-- The session without a track. -/
def Session.without (s : Session) (id : String) : Session :=
  { s with consumer := s.consumer.map (·.removeTrack id), tracks := s.tracks.erase id }

/-- A track is offered: it has a branch already, webrtcbin refuses a pad, its
branch cannot be built on the m-line it takes, or it joins. -/
inductive Joins (s : Session) (cap : String) (t : Ctx.Wanted) : Session → Prop where
  | there {c : Consumer} {ct : ConsumerTrack} (hc : s.consumer = some c)
      (ht : c.tracks[t.spec.trackId]? = some ct) :
      Joins s cap t { s with tracks := s.tracks.insert t.spec.trackId (cap, t.spec) }
  | refused {c : Consumer} (hc : s.consumer = some c) :
      Joins s cap t { s with consumer := some { c with nextPt := c.nextPt + 1 } }
  | failed {c c₁ : Consumer} {t₁ : ConsumerTrack} {sink : Sink} (hc : s.consumer = some c)
      (hnew : c.tracks[t.spec.trackId]? = none)
      (htakes : Consumer.Takes c t.spec cap sink s.manifestVersion c₁ t₁) :
      Joins s cap t { s with consumer := some c₁ }
  | joined {c c₁ : Consumer} {t₁ : ConsumerTrack} {sink : Sink} (hc : s.consumer = some c)
      (hnew : c.tracks[t.spec.trackId]? = none)
      (htakes : Consumer.Takes c t.spec cap sink s.manifestVersion c₁ t₁) :
      Joins s cap t { s with
        consumer := some (c₁.setTrack t.spec.trackId t₁)
        tracks := s.tracks.insert t.spec.trackId (cap, t.spec) }

theorem Joins.contains {s s' : Session} {cap id : String} {t : Ctx.Wanted} (h : Joins s cap t s')
    (hid : s.tracks.contains id = true) : s'.tracks.contains id = true := by
  cases h with
  | there | joined =>
    rw [Std.ExtTreeMap.contains_eq_isSome_getElem?] at hid ⊢
    rw [Maps.get?_insert]
    split
    · rfl
    · exact hid
  | refused | failed => exact hid

/-- The offers and what is in flight stay as they are. -/
structure Aloft (s s' : Session) : Prop where
  renegotiationPending : s'.renegotiationPending = s.renegotiationPending
  manifestVersion : s'.manifestVersion = s.manifestVersion
  sent : s'.sent = s.sent
  applied : s'.applied = s.applied
  closing : s.closing = true → s'.closing = true
  consumer : ∀ c', s'.consumer = some c' → ∃ c, s.consumer = some c ∧
    c'.negotiations = c.negotiations ∧ c'.offerInFlight = c.offerInFlight ∧
    c'.offeredSendonly = c.offeredSendonly

namespace Aloft

variable {s s' s'' : Session}

theorem refl (s : Session) : Aloft s s :=
  ⟨rfl, rfl, rfl, rfl, id, fun c hc => ⟨c, hc, rfl, rfl, rfl⟩⟩

theorem trans (h : Aloft s s') (h' : Aloft s' s'') : Aloft s s'' := by
  refine ⟨h'.renegotiationPending.trans h.renegotiationPending,
    h'.manifestVersion.trans h.manifestVersion, h'.sent.trans h.sent, h'.applied.trans h.applied,
    fun hc => h'.closing (h.closing hc), fun c'' hc'' => ?_⟩
  obtain ⟨c', hc', hneg', hflight', hoffered'⟩ := h'.consumer c'' hc''
  obtain ⟨c, hc, hneg, hflight, hoffered⟩ := h.consumer c' hc'
  exact ⟨c, hc, hneg'.trans hneg, hflight'.trans hflight, hoffered'.trans hoffered⟩

theorem open_of_open (h : Aloft s s') (hopen : s'.closing = false) : s.closing = false := by
  by_contra hclosing
  rw [Bool.not_eq_false] at hclosing
  rw [h.closing hclosing] at hopen
  exact Bool.noConfusion hopen

theorem of_held (h : Held s s') : Aloft s s' := by
  refine ⟨h.renegotiationPending, h.manifestVersion, h.sent, h.applied, h.closing, fun c' hc' => ?_⟩
  obtain ⟨c, hc, htouched⟩ := h.consumer_some hc'
  exact ⟨c, hc, htouched.negotiations, htouched.offerInFlight, htouched.offeredSendonly⟩

theorem without (s : Session) (id : String) : Aloft s (s.without id) := by
  refine ⟨rfl, rfl, rfl, rfl, fun h => h, fun c' hc' => ?_⟩
  obtain ⟨c, hc, rfl⟩ := map_eq_some_iff.mp hc'
  refine ⟨c, hc, ?_⟩
  unfold Consumer.removeTrack
  split <;> exact ⟨rfl, rfl, rfl⟩

theorem of_joins {cap : String} {t : Ctx.Wanted} (h : Joins s cap t s') : Aloft s s' := by
  cases h with
  | there hc ht => exact ⟨rfl, rfl, rfl, rfl, id, fun c hc => ⟨c, hc, rfl, rfl, rfl⟩⟩
  | refused hc =>
    refine ⟨rfl, rfl, rfl, rfl, id, fun c' hc' => ⟨_, hc, ?_⟩⟩
    cases hc'
    exact ⟨rfl, rfl, rfl⟩
  | failed hc hnew htakes | joined hc hnew htakes =>
    refine ⟨rfl, rfl, rfl, rfl, id, fun c' hc' => ⟨_, hc, ?_⟩⟩
    cases hc'
    have hspares := htakes.spares
    exact ⟨hspares.negotiations, hspares.offerInFlight, hspares.offeredSendonly⟩

end Aloft

namespace Ctx

/-- A track that is offered is unavailable, or joins in one of the four
ways; the second component says that it is the session's now. -/
theorem offerTrack_cases (x : Ctx) (cap : String) (t : Wanted) :
    (x.offerTrack cap t).1.session = x.session ∧ (x.offerTrack cap t).2 = false ∨
      ∃ s', Joins x.session cap t s' ∧ Held s' (x.offerTrack cap t).1.session ∧
        ((x.offerTrack cap t).2 = false → s'.tracks = x.session.tracks) := by
  unfold offerTrack
  split
  · exact .inl ⟨rfl, rfl⟩
  rename_i c hc
  dsimp only
  split
  · exact .inl ⟨rfl, rfl⟩
  obtain ⟨ct, ht, heq⟩ | ⟨hnew, ⟨e, heq⟩ | ⟨c₁, t₁, htakes, ⟨e, heq⟩ | heq⟩⟩ :=
    c.addTrack_cases t.spec cap t.gst x.nextSink x.session.manifestVersion
  · rw [heq]
    refine .inr ⟨_, .there hc ht, ?_, nofun⟩
    exact .of_eq _ rfl rfl rfl rfl rfl rfl id hc.symm
  · rw [heq]
    exact .inr ⟨_, .refused hc, held_close_of rfl, fun _ => rfl⟩
  · rw [heq]
    exact .inr ⟨_, .failed hc hnew htakes, held_close_of rfl, fun _ => rfl⟩
  · rw [heq]
    exact .inr ⟨_, .joined hc hnew htakes, .refl _, nofun⟩

theorem mem_removed {s : Session} {cap id : String} {fullSet : List Wanted}
    (h : id ∈ removed s cap fullSet) :
    (∃ spec, s.tracks[id]? = some (cap, spec)) ∧ id ∉ fullSet.map (·.spec.trackId) := by
  obtain ⟨⟨id', cap', spec⟩, hmem, rfl⟩ := List.mem_map.mp h
  obtain ⟨hmem', hcond⟩ := mem_filter.mp hmem
  simp only [Bool.and_eq_true, decide_eq_true_eq] at hcond
  obtain ⟨rfl, hnot⟩ := hcond
  exact ⟨⟨spec, Std.ExtTreeMap.mem_toList_iff_getElem?_eq_some.mp hmem'⟩, hnot⟩

/-- What `update_tracks` leaves of the session it began with: the offers,
and the wanted tracks. -/
structure Kept (s₀ : Session) (wanted : List Wanted) (s : Session) : Prop where
  aloft : Aloft s₀ s
  tracks : ∀ t ∈ wanted, s₀.tracks.contains t.spec.trackId = true →
    s.tracks.contains t.spec.trackId = true

namespace Kept

theorem refl (s : Session) (wanted : List Wanted) : Kept s wanted s :=
  ⟨.refl s, fun _ _ hhas => hhas⟩

variable {s₀ s s' : Session} {wanted : List Wanted} (h : Kept s₀ wanted s)
include h

theorem held (hsame : Held s s') : Kept s₀ wanted s' :=
  ⟨h.aloft.trans (.of_held hsame), by rw [hsame.tracks]; exact h.tracks⟩

theorem joins {cap : String} {t : Wanted} (hjoins : Joins s cap t s') : Kept s₀ wanted s' :=
  ⟨h.aloft.trans (.of_joins hjoins), fun u hu hhas => hjoins.contains (h.tracks u hu hhas)⟩

theorem without {id : String} (hid : id ∉ wanted.map (·.spec.trackId)) :
    Kept s₀ wanted (s.without id) := by
  refine ⟨h.aloft.trans (.without s id), fun t ht hhas => ?_⟩
  have hne : t.spec.trackId ≠ id := by
    rintro rfl
    exact hid (List.mem_map_of_mem ht)
  have hkeep := h.tracks t ht hhas
  rw [Std.ExtTreeMap.contains_eq_isSome_getElem?] at hkeep ⊢
  rw [Session.without, Maps.get?_erase, if_neg hne]
  exact hkeep

end Kept

section

variable {P : Session → Prop} (hheld : ∀ s s', P s → Held s s' → P s')
include hheld

variable {x : Ctx}

theorem offerTrack_keeps {cap : String} {t : Wanted}
    (hjoin : ∀ s', Joins x.session cap t s' → P s') (h : P x.session) :
    P (x.offerTrack cap t).1.session := by
  obtain ⟨heq, -⟩ | ⟨s', hjoins, hsame, -⟩ := x.offerTrack_cases cap t
  · rw [heq]
    exact h
  · exact hheld s' _ (hjoin s' hjoins) hsame

theorem offerTracks_keep (pending : List (String × Wanted))
    (hjoin : ∀ s s' t, t ∈ pending → P s → Joins s t.1 t.2 s' → P s')
    (h : P x.session) : P (pending.foldl (fun x t => (x.offerTrack t.1 t.2).1) x).session := by
  induction pending generalizing x with
  | nil => exact h
  | cons t rest ih =>
    refine ih (fun s s' u hu => hjoin s s' u (mem_cons_of_mem _ hu)) ?_
    exact offerTrack_keeps hheld (fun s' => hjoin _ s' t mem_cons_self h) h

/-- `attach`: its tracks join before anything is negotiated, and then it
closes or makes its first offer. -/
theorem attach_keeps {Q : Session → Prop} {caps : List String}
    {pending : List (String × Wanted)} {uplinks : Nat} (built : Bool)
    (h : P { x.session with state := .building, caps, consumer := some {} })
    (hclose : ∀ s, s.closing = true → P s → Q s)
    (hjoin : ∀ s s' t, t ∈ pending → (∀ c, s.consumer = some c → c.negotiations = []) → P s →
      Joins s t.1 t.2 s' → P s')
    (hoffer : ∀ s, P s → Q (Session.requestOffer { s with consumer := s.consumer.map fun c =>
      { c with lines := c.lines ++ List.replicate uplinks .recvonly } })) :
    Q (x.attach built caps pending uplinks).session := by
  unfold attach
  split
  · exact hclose _ (close_closing _) (hheld _ _ h (held_close_of rfl))
  refine hoffer _ (offerTracks_keep
    (P := fun s => (∀ c, s.consumer = some c → c.negotiations = []) ∧ P s) ?_ pending ?_ ⟨?_, h⟩).2
  · rintro s s' ⟨hnone, hs⟩ hsame
    refine ⟨fun c' hc' => ?_, hheld s s' hs hsame⟩
    obtain ⟨c, hc, htouched⟩ := hsame.consumer_some hc'
    exact htouched.negotiations.trans (hnone c hc)
  · rintro s s' t ht ⟨hnone, hs⟩ hjoins
    refine ⟨fun c' hc' => ?_, hjoin s s' t ht hnone hs hjoins⟩
    obtain ⟨c, hc, hneg, -, -⟩ := (Aloft.of_joins hjoins).consumer c' hc'
    exact hneg.trans (hnone c hc)
  · intro c hc
    rw [← some.inj hc]

theorem addTracks_keeps {s₀ : Session} {cap : String} {wanted : List Wanted}
    (hjoin : ∀ s s' t, t ∈ wanted → s₀.tracks.contains t.spec.trackId = false → Aloft s₀ s →
      P s → Joins s cap t s' → P s') (hkept : Kept s₀ wanted x.session)
    (h : P x.session) :
    Aloft s₀ (x.addTracks cap wanted).1.session ∧ P (x.addTracks cap wanted).1.session := by
  induction wanted generalizing x with
  | nil => exact ⟨hkept.aloft, h⟩
  | cons t rest ih =>
    have hrest := fun s s' u hu => hjoin s s' u (mem_cons_of_mem _ hu)
    have hkept' : Kept s₀ rest x.session :=
      ⟨hkept.aloft, fun u hu => hkept.tracks u (mem_cons_of_mem _ hu)⟩
    unfold addTracks
    split
    · exact ih hrest hkept' h
    rename_i hthere
    have hnew : s₀.tracks.contains t.spec.trackId = false := by
      by_contra hold
      exact hthere (hkept.tracks t mem_cons_self (Bool.not_eq_false _ ▸ hold))
    refine (offerTrack_keeps (P := fun s => Kept s₀ rest s ∧ P s)
      (fun s s' hs hsame => ⟨hs.1.held hsame, hheld s s' hs.2 hsame⟩) (fun s' hjoins => ?_)
      ⟨hkept', h⟩).elim (ih hrest)
    exact ⟨hkept'.joins hjoins, hjoin _ s' t mem_cons_self hnew hkept.aloft h hjoins⟩

theorem dropTracks_keep {s₀ : Session} {wanted : List Wanted} {ids : List String}
    (hgone : ∀ id ∈ ids, id ∉ wanted.map (·.spec.trackId))
    (hdrop : ∀ s id, id ∈ ids → P s → P (s.without id))
    (hkept : Kept s₀ wanted x.session) (h : P x.session) :
    Kept s₀ wanted (ids.foldl dropTrack x).session ∧ P (ids.foldl dropTrack x).session := by
  induction ids generalizing x with
  | nil => exact ⟨hkept, h⟩
  | cons id rest ih =>
    have hsame := held_applyDemand x id false "active"
    refine ih (fun i hi => hgone i (mem_cons_of_mem _ hi))
      (fun s i hi => hdrop s i (mem_cons_of_mem _ hi))
      ((hkept.held hsame).without (hgone id mem_cons_self)) ?_
    exact hdrop _ id mem_cons_self (hheld _ _ h hsame)

end

theorem addTracks_none {x : Ctx} {cap : String} {wanted : List Wanted}
    (h : (x.addTracks cap wanted).2 = false) :
    (x.addTracks cap wanted).1.session.tracks = x.session.tracks := by
  induction wanted generalizing x with
  | nil => rfl
  | cons t rest ih =>
    unfold addTracks at h ⊢
    split at h
    · rename_i hold
      rw [if_pos hold]
      exact ih h
    rename_i hnew
    rw [if_neg hnew]
    obtain ⟨hadded, hmore⟩ := Bool.or_eq_false_iff.mp h
    refine (ih hmore).trans ?_
    obtain ⟨heq, -⟩ | ⟨s', -, hsame, htracks⟩ := x.offerTrack_cases cap t
    · rw [heq]
    · exact hsame.tracks.trans (htracks hadded)

/-- What the session is when `update_tracks` has made its changes. -/
def changed (x : Ctx) (cap : String) (fullSet : List Wanted) : Ctx × Bool :=
  ((removed x.session cap fullSet).foldl dropTrack x).addTracks cap fullSet

/-- `update_tracks`: nothing, changes that come to nothing, or changes and a
request for an offer. -/
theorem updateTracks_cases (x : Ctx) (cap : String) (fullSet : List Wanted) :
    x.updateTracks cap fullSet = x ∨
      x.session.closing = false ∧
        (removed x.session cap fullSet = [] ∧ (x.changed cap fullSet).2 = false ∧
            x.updateTracks cap fullSet = (x.changed cap fullSet).1 ∨
          (x.updateTracks cap fullSet).session =
            (x.changed cap fullSet).1.session.requestOffer) := by
  unfold updateTracks
  split
  · exact .inl rfl
  rename_i hopen
  rw [Bool.or_eq_true, not_or, Bool.not_eq_true, Bool.not_eq_true] at hopen
  refine .inr ⟨hopen.2, ?_⟩
  dsimp only
  split
  · exact .inr rfl
  rename_i hnone
  rw [Bool.or_eq_true, not_or, Bool.not_eq_true, Bool.not_eq_true, Bool.not_eq_false',
    List.isEmpty_iff] at hnone
  exact .inl ⟨hnone.1, hnone.2, rfl⟩

end Ctx

theorem Session.requestOffer_cases (s : Session) :
    s.requestOffer = s ∧ (s.consumer = none ∨ s.closing = true) ∨
      ∃ c, s.consumer = some c ∧ s.closing = false ∧
        (c.offerInFlight = true ∧ s.requestOffer = { s with renegotiationPending := true } ∨
          c.offerInFlight = false ∧
            s.requestOffer = { s with consumer := some { c with
              offerInFlight := true, negotiations := c.negotiations ++ [.creating] } }) := by
  unfold requestOffer
  split
  · exact .inl ⟨rfl, .inl (by assumption)⟩
  rename_i c hc
  split
  · exact .inl ⟨rfl, .inr (by assumption)⟩
  rename_i hopen
  refine .inr ⟨c, hc, Bool.not_eq_true _ ▸ hopen, ?_⟩
  split
  · exact .inl ⟨by assumption, rfl⟩
  rename_i hidle
  refine .inr ⟨Bool.not_eq_true _ ▸ hidle, ?_⟩
  rw [Consumer.createOffer, if_neg hidle]

theorem Session.remoteDescriptionSet_spec {s : Session} {c : Consumer} (hc : s.consumer = some c) :
    ∃ c', s.remoteDescriptionSet.consumer = some c' ∧ c'.tracks = c.tracks ∧ c'.lines = c.lines ∧
      c'.offeredSendonly = c.offeredSendonly ∧
      (c'.negotiations = c.negotiations ∨ c'.negotiations = c.negotiations ++ [.creating]) ∧
      s.remoteDescriptionSet.sent = s.sent ∧ s.remoteDescriptionSet.applied = s.applied ∧
      s.remoteDescriptionSet.manifestVersion = s.manifestVersion := by
  unfold remoteDescriptionSet
  split
  · obtain ⟨heq, -⟩ | ⟨d, hd, -, ⟨-, heq⟩ | ⟨-, heq⟩⟩ :=
      Session.requestOffer_cases { s with renegotiationPending := false }
    · rw [heq]
      exact ⟨c, hc, rfl, rfl, rfl, .inl rfl, rfl, rfl, rfl⟩
    · rw [heq]
      exact ⟨c, hc, rfl, rfl, rfl, .inl rfl, rfl, rfl, rfl⟩
    cases hc.symm.trans hd
    rw [heq]
    exact ⟨_, rfl, rfl, rfl, rfl, .inr rfl, rfl, rfl, rfl⟩
  · exact ⟨c, hc, rfl, rfl, rfl, .inl rfl, rfl, rfl, rfl⟩

/-! ## Moves -/

/-- What every action but `attach` and `update_tracks` does to its session. -/
inductive Moves (mids : Nat → String) (s : Session) : Session → Prop where
  | held {s' : Session} (hheld : Held s s') : Moves mids s s'
  | closed : Moves mids s { s with
      consumer := none, tracks := ∅, subscribedTier := ∅, state := .closed }
  | runs {c : Consumer} {j : Nat} {ok : Bool} (hc : s.consumer = some c)
      (hj : c.negotiations[j]? = some .creating) :
      Moves mids s { s with consumer := some (c.offerRuns j mids ok) }
  | created {c : Consumer} {j : Nat} {sdp : Sdp} (hc : s.consumer = some c)
      (hj : c.negotiations[j]? = some (.created (some sdp))) :
      Moves mids s { s with consumer := some (c.offerCreated j sdp) }
  | failed {c : Consumer} {j : Nat} {s' : Session} (hc : s.consumer = some c)
      (hj : c.negotiations[j]? = some (.created none))
      (hheld : Held { s with consumer := some (c.offerFailed j) } s')
      (hclosing : s'.closing = true) : Moves mids s s'
  | sent {c : Consumer} {j : Nat} {sdp : Sdp} {offer : Offer} {state : State}
      (hc : s.consumer = some c) (hj : c.negotiations[j]? = some (.describing sdp))
      (hoffer : offer =
        { sdp, tracks := c.manifest, manifestVersion := s.manifestVersion + 1 })
      (hstate : s.closing = true → state = s.state) :
      Moves mids s { s with
        manifestVersion := s.manifestVersion + 1
        sent := s.sent ++ [offer]
        state
        consumer := some { c with negotiations := c.negotiations.set j (.offered offer) } }
  | answered {c : Consumer} {j : Nat} {offer : Offer} {accepted : List Bool}
      (hc : s.consumer = some c) (hj : c.negotiations[j]? = some (.offered offer)) :
      Moves mids s { s with consumer := some { c with
        negotiations := c.negotiations.set j (.answered offer accepted) } }
  | unparseable {c : Consumer} {j : Nat} {offer : Offer} {s' : Session} (hc : s.consumer = some c)
      (hj : c.negotiations[j]? = some (.offered offer))
      (hheld : Held { s with consumer := some { c with
        negotiations := c.negotiations.eraseIdx j } } s')
      (hclosing : s'.closing = true) : Moves mids s s'
  | applied {c : Consumer} {j : Nat} {offer : Offer} {accepted : List Bool} {s' : Session}
      (hc : s.consumer = some c) (hj : c.negotiations[j]? = some (.answered offer accepted))
      (hs' : s' = Session.remoteDescriptionSet { s with consumer := some (c.answerApplied j) }) :
      Moves mids s { s' with
        consumer := s'.consumer.map (·.settleAll offer.sdp accepted)
        applied := (offer, accepted) :: s'.applied }

namespace Ctx

variable {mids : Nat → String} {x x' : Ctx}

theorem moves_reply {k j : Nat} (h : x.act mids (.reply k j) = some x') :
    Moves mids x.session x'.session := by
  simp only [act] at h
  split at h
  · cases h
  rename_i c hc
  split at h
  · rename_i sdp hj
    cases h
    cases sdp with
    | some sdp => exact .created hc hj
    | none => exact .failed hc hj (held_close_of rfl) (close_closing _)
  · rename_i sdp hj
    cases h
    refine .sent hc hj rfl fun hclosing => ?_
    refine if_neg fun hbuilding => ?_
    rw [Session.closing, hbuilding] at hclosing
    exact absurd hclosing (by decide)
  · rename_i offer accepted hj
    cases h
    exact .applied hc hj rfl
  · cases h

theorem moves_answer {k j : Nat} {accepted : Option (List Bool)}
    (h : x.act mids (.answer k j accepted) = some x') : Moves mids x.session x'.session := by
  simp only [act] at h
  split at h
  · cases h
  rename_i c hc
  split at h
  · rename_i offer hj
    cases h
    cases accepted with
    | some accepted => exact .answered hc hj
    | none => exact .unparseable hc hj (held_close_of rfl) (close_closing _)
  · cases h

theorem moves_offerRuns {k j : Nat} {ok : Bool} (h : x.act mids (.offerRuns k j ok) = some x') :
    Moves mids x.session x'.session := by
  simp only [act] at h
  split at h
  · cases h
  rename_i c hc
  split at h
  · rename_i hj
    cases h
    exact .runs hc hj
  · cases h

/-- **What actions do**: `update_tracks`, or one move. -/
theorem act_cases {a : Act} (h : x.act mids a = some x') :
    (∃ k cap fullSet, a = .updateTracks k cap fullSet ∧ x' = x.updateTracks cap fullSet) ∨
      Moves mids x.session x'.session := by
  cases a with
  | updateTracks k cap fullSet => exact .inl ⟨k, cap, fullSet, rfl, (some.inj h).symm⟩
  | selectTracks k cap known payload =>
    cases h
    exact .inr (.held (held_selectTracks ..))
  | connected k =>
    obtain ⟨hstate, rfl⟩ := guarded.mp h
    refine .inr (.held (.of_eq _ rfl rfl rfl rfl rfl rfl (fun hclosing => ?_) rfl))
    rw [Session.closing] at hclosing
    rcases hstate with hstate | hstate <;> rw [hstate] at hclosing <;>
      exact absurd hclosing (by decide)
  | rateTick k share evidence =>
    cases h
    exact .inr (.held (held_rateTick ..))
  | testSilence k media =>
    obtain ⟨-, rfl⟩ := guarded_not.mp h
    exact .inr (.held (held_testSilence ..))
  | silenceEnds k =>
    obtain ⟨-, rfl⟩ := guarded_not.mp h
    exact .inr (.held (held_silenceEnds x))
  | close k =>
    cases h
    exact .inr (.held (held_close x))
  | finishClose k =>
    obtain ⟨hstate, rfl⟩ := guarded.mp h
    have hopen : ¬ x.session.state = .closed := by
      rw [hstate]
      decide
    rw [finishClose, if_neg hopen]
    exact .inr .closed
  | offerRuns k j ok => exact .inr (moves_offerRuns h)
  | reply k j => exact .inr (moves_reply h)
  | answer k j accepted => exact .inr (moves_answer h)
  | attach | setSource | tick => cases h.symm

end Ctx

/-! ## Sessions of the system -/

/-- **Sessions, step by step.** What a new session has, and what moves and
`update_tracks` keep, every session has after the step. -/
theorem sessions_step {mids : Nat → String} {P : Session → Prop} {w w' : World} {a : Act}
    (h : step mids w a = some w') (hP : ∀ s ∈ w.sessions, P s)
    (hattach : ∀ built caps pending uplinks, a = .attach built caps pending uplinks →
      P (Ctx.attach { session := {}, plane := w.plane, nextSink := w.nextSink }
        built caps pending uplinks).session)
    (hmoves : ∀ s s', P s → Moves mids s s' → P s')
    (hupdate : ∀ k cap fullSet (x : Ctx), a = .updateTracks k cap fullSet →
      w.sessions[k]? = some x.session → P x.session → P (x.updateTracks cap fullSet).session) :
    ∀ s ∈ w'.sessions, P s := by
  have hact : ∀ k s, a.session = some k → w.sessions[k]? = some s →
      (Ctx.act mids { session := s, plane := w.plane, nextSink := w.nextSink } a).map (fun x =>
        { sessions := w.sessions.set k x.session, plane := x.plane, nextSink := x.nextSink :
          World }) = some w' → ∀ s ∈ w'.sessions, P s := by
    intro k s hk hs hmap
    obtain ⟨x', hx', rfl⟩ := map_eq_some_iff.mp hmap
    intro s' hs'
    obtain hmem | rfl := mem_or_eq_of_mem_set hs'
    · exact hP s' hmem
    have hold := hP s (mem_of_getElem? hs)
    obtain ⟨k', cap, fullSet, rfl, rfl⟩ | hmove := Ctx.act_cases hx'
    · obtain rfl := some.inj hk
      exact hupdate k' cap fullSet _ rfl hs hold
    · exact hmoves _ _ hold hmove
  unfold step at h
  split at h
  · rename_i built caps pending uplinks
    obtain rfl := some.inj h
    intro s hs
    obtain hs | rfl := mem_snoc.mp hs
    · exact hP s hs
    · exact hattach built caps pending uplinks rfl
  · obtain rfl := some.inj h
    exact hP
  · obtain rfl := some.inj h
    exact hP
  split at h
  · cases h
  rename_i k hk
  split at h
  · cases h
  rename_i s hs
  exact hact k s hk hs h

end Fjarr.Core
