import CanisLink.Consent
import CanisLink.Fleet
/-!
# Beliefs — what an agent holds was so in the cloud

An agent is told of sessions and invites by answers only.  Whatever is lost or answered late, the session it holds was
in the store and has its dog as a party; it shows `InSession` only when that session was active at some moment; and two
agents do not disagree about a session.
-/
namespace CanisLink

open Interleave (Prog Pool)

/-- What an agent holds has been in the stores, and is about its dog. -/
structure Believes (cfg : EdgeConfig) (k : Known) (a : EdgeAgent) : Prop where
  config : a.cfg = cfg
  session : ∀ x, a.session = some x → x ∈ k.sessions ∧ x.hasDog cfg.dogId
  contact : a.ux = .inSession → ∃ x y, a.session = some x ∧ y ∈ k.sessions ∧ y.id = x.id ∧ y.state = .active
  offer : ∀ o, a.lastOffer = some o → o.1 ∈ k.invites ∧ o.1.toDog = cfg.dogId

theorem json_eq_ok {β : Type} {ex : Exchange β} {b : β} (h : ex.json = .ok b) :
    ∃ status, ex = .answered status (some b) := by
  cases ex with
  | failed => cases h
  | answered status body =>
    simp only [Exchange.json] at h
    by_cases hstatus : 400 ≤ status ∧ status < 600
    · rw [if_pos hstatus] at h
      cases h
    · rw [if_neg hstatus] at h
      cases body with
      | none => cases h
      | some b' => exact ⟨status, by rw [Except.ok.inj h]⟩

namespace Believes

variable {st : AppState} {cfg : EdgeConfig} {k k' : Known} {a b : EdgeAgent}

theorem mono (h : Believes cfg k a) (hle : k ≤ k') : Believes cfg k' a where
  config := h.config
  session x hx := ⟨hle.1 (h.session x hx).1, (h.session x hx).2⟩
  contact hux := by
    obtain ⟨x, y, hx, hy, hactive⟩ := h.contact hux
    exact ⟨x, y, hx, hle.1 hy, hactive⟩
  offer o ho := ⟨hle.2 (h.offer o ho).1, (h.offer o ho).2⟩

theorem new (cfg : EdgeConfig) (k : Known) : Believes cfg k (.new cfg) := by
  refine ⟨rfl, fun _ h => ?_, fun h => ?_, fun _ h => ?_⟩ <;> cases h

/-- Beliefs are about the session, the offer and being in session. -/
theorem congr (h : Believes cfg k a) (hcfg : b.cfg = a.cfg) (hsession : b.session = a.session)
    (hoffer : b.lastOffer = a.lastOffer) (hux : b.ux = .inSession → a.ux = .inSession) : Believes cfg k b where
  config := hcfg.trans h.config
  session x hx := h.session x (hsession ▸ hx)
  contact hb := by
    rw [hsession]
    exact h.contact (hux hb)
  offer o ho := h.offer o (hoffer ▸ ho)

/-- `ux` becomes something else than `InSession`. -/
theorem away (h : Believes cfg k a) (ux : EdgeUx) (hux : ux ≠ .inSession) : Believes cfg k { a with ux } :=
  h.congr rfl rfl rfl (fun e => absurd e hux)

/-- The offer is dropped. -/
theorem dropped (h : Believes cfg k a) (ux : EdgeUx) (hux : ux ≠ .inSession) :
    Believes cfg k { a with ux, lastOffer := none } where
  config := h.config
  session := h.session
  contact e := absurd e hux
  offer _ ho := by cases ho

/-- The agent is told of the session it holds again. -/
theorem updated (h : Believes cfg k a) {x s : SessionRecord} (hx : a.session = some x) (hs : s ∈ k.sessions)
    (hid : s.id = x.id) (hdog : s.hasDog cfg.dogId) : Believes cfg k { a with session := some s } where
  config := h.config
  session _ hy := Option.some.inj hy ▸ ⟨hs, hdog⟩
  contact hux := by
    obtain ⟨x', y, hx', hy, hyid, hactive⟩ := h.contact hux
    obtain rfl := Option.some.inj (hx.symm.trans hx')
    exact ⟨s, y, rfl, hy, hyid.trans hid.symm, hactive⟩
  offer := h.offer

/-- The agent takes up a session it is told of. -/
theorem joined (h : Believes cfg k a) {s : SessionRecord} (ux : EdgeUx) (hs : s ∈ k.sessions)
    (hdog : s.hasDog cfg.dogId) (hux : ux = .inSession → s.state = .active) :
    Believes cfg k { a with session := some s, ux } where
  config := h.config
  session _ hy := Option.some.inj hy ▸ ⟨hs, hdog⟩
  contact hin := ⟨s, s, rfl, hs, rfl, hux hin⟩
  offer := h.offer

/-- The agent accepts. -/
theorem accepted (h : Believes cfg k a) {s : SessionRecord} (hs : s ∈ k.sessions) (hdog : s.hasDog cfg.dogId) :
    Believes cfg k { a with session := some s, lastOffer := none, ux := .negotiating } where
  config := h.config
  session _ hx := Option.some.inj hx ▸ ⟨hs, hdog⟩
  contact hux := by cases hux
  offer _ ho := by cases ho

/-- The agent starts ringing. -/
theorem lured (h : Believes cfg k a) {o : Invite × LureConfig} (ho : o.1 ∈ k.invites) (hdog : o.1.toDog = cfg.dogId) :
    Believes cfg k { a with ux := .ringingIn, lastOffer := some o } where
  config := h.config
  session := h.session
  contact hux := by cases hux
  offer _ hoffer := Option.some.inj hoffer ▸ ⟨ho, hdog⟩

/-- A free-form body names the agent's dog. -/
theorem names_jsonBody (hF : st.formats.LawfulIds) (h : Believes cfg k a) (ready : Option Bool) :
    ((a.jsonBody st.formats ready).names st).map (·.2) = some cfg.dogId := by
  rw [← h.config]
  exact JsonBody.names_of_parse (hF.parse_uuid _) (hF.parse_uuid _)

theorem endSession (h : Believes cfg k a) (reason : EndReason) :
    (a.endSession st.formats reason).Under (Honest st) (fun k r => Believes cfg k r.2) k := by
  unfold EdgeAgent.endSession
  simp only [http, Prog.op_bind, Prog.pure_eq]
  cases a.session with
  | none => exact h
  | some x =>
    intro m hm ans _
    have h := h.mono hm
    refine ⟨h.config, fun _ hx => ?_, fun hux => ?_, h.offer⟩
    · cases hx
    · dsimp only at hux
      split at hux <;> cases hux

theorem reportMediaReady (hF : st.formats.LawfulIds) (h : Believes cfg k a) (ready : Bool) :
    (a.reportMediaReady st.formats ready).Under (Honest st) (fun k r => Believes cfg k r.2) k := by
  unfold EdgeAgent.reportMediaReady
  simp only [http, Prog.op_bind, Prog.pure_eq]
  cases hx : a.session with
  | none => exact h
  | some x =>
    intro m hm ans hans
    have h := h.mono hm
    dsimp only
    cases hj : ans.json with
    | error e => exact h
    | ok body =>
      obtain ⟨status, rfl⟩ := json_eq_ok hj
      obtain ⟨session, both⟩ := body
      rcases session with _ | _ | s
      · exact h
      · exact h
      · obtain ⟨hs, hid, hactive, dog, hnames, hdog⟩ := hans s rfl
        rw [h.names_jsonBody hF] at hnames
        obtain rfl := Option.some.inj hnames
        show Prog.Under _ _ (if _ then _ else _) _
        split
        · rename_i hin
          exact h.joined _ hs hdog (fun _ => hin.elim (fun e => e) hactive)
        · exact h.updated hx hs hid hdog

theorem publishNow (h : Believes cfg k a) (ts : DateTime) :
    (a.publishNow st.formats ts).Under (Honest st) (fun k r => Believes cfg k r.2) k := by
  intro m hm ans _
  have h : Believes cfg m (a.nextReport ts).2 := (h.mono hm).congr rfl rfl rfl (fun e => e)
  cases ans with
  | failed => exact h
  | answered status body =>
    show Prog.Under _ _ (if _ then _ else _) _
    split <;> exact h

theorem acceptIncoming (hF : st.formats.LawfulIds) (h : Believes cfg k a) :
    (a.acceptIncoming st.formats).Under (Honest st) (fun k r => Believes cfg k r.2) k := by
  unfold EdgeAgent.acceptIncoming
  simp only [http, Prog.op_bind, Prog.pure_eq]
  cases a.lastOffer with
  | none => exact h
  | some offer =>
    intro m hm ans hans
    have h := h.mono hm
    cases ans with
    | failed => exact h
    | answered status body =>
      show Prog.Under _ _ (if _ then _ else _) _
      split
      · exact h
      · cases body with
        | none => exact h
        | some resp =>
          obtain ⟨hs, dog, hnames, hdog⟩ := hans
          rw [h.names_jsonBody hF] at hnames
          obtain rfl := Option.some.inj hnames
          refine ((h.accepted hs hdog).reportMediaReady hF true).bind (fun m' r _ hr => ?_)
          obtain ⟨r, b⟩ := r
          cases r <;> exact hr

theorem call (h : Believes cfg k a) (toDog : Option DogId) :
    (a.call st.formats toDog).Under (Honest st) (fun k r => Believes cfg k r.2) k := by
  unfold EdgeAgent.call
  simp only [http, Prog.op_bind, Prog.pure_eq]
  split
  · exact h
  · intro m hm ans _
    have h := h.mono hm
    cases ans with
    | failed => exact h.away _ (by decide)
    | answered status body =>
      show Prog.Under _ _ (if _ then _ else _) _
      split
      · exact h.away _ (by decide)
      · cases body with
        | none => exact h.away _ (by decide)
        | some invite => exact h.away _ (by decide)

theorem again (hF : st.formats.LawfulIds) (h : Believes cfg k a) :
    (a.again st.formats).Under (Honest st) (fun k r => Believes cfg k r.2) k := by
  unfold EdgeAgent.again
  simp only [http, Prog.op_bind, Prog.pure_eq]
  cases hx : a.session with
  | none => exact h
  | some x =>
    intro m hm ans hans
    have h := h.mono hm
    dsimp only
    cases hj : ans.json with
    | error e => exact h
    | ok body =>
      obtain ⟨status, rfl⟩ := json_eq_ok hj
      obtain ⟨session, both⟩ := body
      rcases session with _ | _ | s
      · exact h
      · exact h
      · obtain ⟨hs, hid, dog, hnames, hdog⟩ := hans s rfl
        rw [h.names_jsonBody hF] at hnames
        obtain rfl := Option.some.inj hnames
        exact h.updated hx hs hid hdog

theorem pollIncoming (h : Believes cfg k a) :
    (a.pollIncoming st.formats).Under (Honest st) (fun k r => Believes cfg k r.2) k := by
  unfold EdgeAgent.pollIncoming
  simp only [http, Prog.op_bind, Prog.pure_eq]
  split
  · exact h
  · intro m hm ans hans
    have h := h.mono hm
    cases ans with
    | failed => exact h
    | answered status body =>
      show Prog.Under _ _ (if _ then _ else _) _
      split
      · exact h
      · rcases body with _ | _ | o
        · exact h
        · exact h
        · show Prog.Under _ _ (if _ then _ else _) _
          split
          · obtain ⟨ho, hto⟩ := hans
            have hdog : o.1.toDog = cfg.dogId := hto.trans (congrArg EdgeConfig.dogId h.config)
            exact h.lured ho hdog
          · exact h

theorem syncActive (hF : st.formats.LawfulIds) (h : Believes cfg k a) :
    (a.syncActive st.formats).Under (Honest st) (fun k r => Believes cfg k r.2) k := by
  unfold EdgeAgent.syncActive
  simp only [http, Prog.op_bind, Prog.pure_eq]
  intro m hm ans hans
  have h := h.mono hm
  dsimp only
  cases hj : ans.json with
  | error e => exact h
  | ok found =>
    obtain ⟨status, rfl⟩ := json_eq_ok hj
    cases found with
    | none => exact h
    | some s =>
      obtain ⟨hs, hdog⟩ := hans
      have hdog : s.hasDog cfg.dogId := congrArg EdgeConfig.dogId h.config ▸ hdog
      dsimp only
      by_cases hactive : s.state = .active
      · rw [if_pos hactive, if_neg (by decide)]
        exact h.joined _ hs hdog (fun _ => hactive)
      · rw [if_neg hactive, if_pos rfl]
        exact ((h.joined .negotiating hs hdog (fun e => by cases e)).reportMediaReady hF true).bind (fun _ _ _ hr => hr)

theorem handleIntent (hF : st.formats.LawfulIds) (h : Believes cfg k a) (i : Intent) :
    (a.handleIntent st.formats i).Under (Honest st) (fun k r => Believes cfg k r.2) k := by
  unfold EdgeAgent.handleIntent
  split
  · exact (h.call none).bind (fun _ _ _ hr => hr)
  split
  · exact (h.acceptIncoming hF).bind (fun _ _ _ hr => hr)
  split
  · exact h.again hF
  split
  · exact h.endSession .done
  · exact h

theorem refresh (h : Believes cfg k a) : Believes cfg k a.refreshUxFromPresence := by
  have harmed : ∀ {b : EdgeAgent}, Believes cfg k b → Believes cfg k b.recomputeArmed :=
    fun hb => hb.congr rfl rfl rfl (fun e => e)
  unfold EdgeAgent.refreshUxFromPresence
  split
  · exact harmed (h.away .idlePresent (by decide))
  · exact harmed (h.away .idleEmpty (by decide))
  · exact harmed (h.dropped .idleEmpty (by decide))
  · exact harmed h

theorem fetchConfig (h : Believes cfg k a) :
    (a.fetchConfig st.formats).Under (Honest st) (fun k r => Believes cfg k r.2) k := by
  unfold EdgeAgent.fetchConfig
  simp only [http, Prog.op_bind, Prog.pure_eq]
  intro m hm ans _
  have h := h.mono hm
  dsimp only
  cases ans.json with
  | error e => exact h
  | ok c =>
    have halt : (a.halt st.formats).Under (Honest st) (Believes cfg) m := by
      unfold EdgeAgent.halt
      show Prog.Under _ _ (if _ then _ else _) _
      split
      · exact ((h.away .halted (by decide)).endSession _).bind (fun _ _ _ hr => hr)
      · exact h.away _ (by decide)
    dsimp only
    split
    · exact halt.bind (fun _ _ _ hb => hb.congr rfl rfl rfl (fun e => e))
    · exact h.congr rfl rfl rfl (fun e => e)

/-- **Every operation keeps what the agent holds true**, whatever honest answers it gets. -/
theorem perform (hF : st.formats.LawfulIds) (h : Believes cfg k a) (o : EdgeOp) :
    (o.perform st.formats a).Under (Honest st) (Believes cfg) k := by
  cases o with
  | ingestUart bytes dtMs =>
    show Believes cfg k (a.ingestUart bytes dtMs).2
    have hfed : Believes cfg k { a with sense := (a.sense.pushBytes bytes dtMs).2 } := h.congr rfl rfl rfl (fun e => e)
    rw [a.ingestUart_snd]
    exact hfed.refresh.congr rfl rfl rfl (fun e => e)
  | pushSample forceN tofMm motion dtMs => exact h.congr rfl rfl rfl (fun e => e)
  | publishNow ts => exact (h.publishNow ts).bind (fun _ _ _ hr => hr)
  | fetchConfig => exact h.fetchConfig.bind (fun _ _ _ hr => hr)
  | call toDog => exact (h.call toDog).bind (fun _ _ _ hr => hr)
  | pollIncoming => exact h.pollIncoming.bind (fun _ _ _ hr => hr)
  | acceptIncoming => exact (h.acceptIncoming hF).bind (fun _ _ _ hr => hr)
  | reportMediaReady ready => exact (h.reportMediaReady hF ready).bind (fun _ _ _ hr => hr)
  | again => exact (h.again hF).bind (fun _ _ _ hr => hr)
  | endSession reason => exact (h.endSession reason).bind (fun _ _ _ hr => hr)
  | syncActive => exact (h.syncActive hF).bind (fun _ _ _ hr => hr)
  | handleIntent i => exact (h.handleIntent hF i).bind (fun _ _ _ hr => hr)

end Believes
/-! ## The fleet -/

/-- What a process comes to is believed with reason, and it waits for the answer of its own request. -/
def Process.Sound (st : AppState) (requests : List Request) (cfg : EdgeConfig) (k : Known) : Process → Prop
  | idle a => Believes cfg k a
  | asks r c => (Prog.call r c : Edge EdgeAgent).Under (Honest st) (Believes cfg) k
  | waits j r c => requests[j]? = some r ∧ (Prog.call r c : Edge EdgeAgent).Under (Honest st) (Believes cfg) k

def Fleet.Sound (st : AppState) (cfgs : List EdgeConfig) (k : Known) (f : Fleet) : Prop :=
  f.terminals.map (·.1) = cfgs ∧ ∀ (n : Nat) (cfg : EdgeConfig) (p : Process), f.terminals[n]? = some (cfg, p) →
    p.Sound st f.requests cfg k

namespace Process.Sound

variable {st : AppState} {requests : List Request} {cfg : EdgeConfig} {k k' : Known} {p : Process}

theorem of {e : Edge EdgeAgent} (h : e.Under (Honest st) (Believes cfg) k) :
    (Process.of e).Sound st requests cfg k := by
  cases e with
  | done a => exact h
  | call r c => exact h

theorem later (h : p.Sound st requests cfg k) (hle : k ≤ k') : p.Sound st requests cfg k' := by
  cases p with
  | idle a => exact Believes.mono h hle
  | asks r c => exact fun m hm => h m (hle.trans hm)
  | waits j r c => exact ⟨h.1, fun m hm => h.2 m (hle.trans hm)⟩

theorem arrive (h : p.Sound st requests cfg k) (r : Request) : p.Sound st (requests ++ [r]) cfg k := by
  cases p with
  | idle a => exact h
  | asks r' c => exact h
  | waits j r' c =>
    refine ⟨?_, h.2⟩
    rw [List.getElem?_append_left (List.getElem?_eq_some_iff.1 h.1).1]
    exact h.1

theorem started (hF : st.formats.LawfulIds) (h : p.Sound st requests cfg k) (o : EdgeOp) :
    (p.started st.formats o).Sound st requests cfg k := by
  cases p with
  | idle a => exact .of (Believes.perform hF h o)
  | _ => exact h

theorem lost (h : p.Sound st requests cfg k) : p.lost.Sound st requests cfg k := by
  have hfailed : ∀ r : Request, Honest st k r .failed := fun r => by cases r <;> trivial
  cases p with
  | idle a => exact h
  | asks r c => exact .of (h k (le_refl k) _ (hfailed r))
  | waits j r c => exact .of (h.2 k (le_refl k) _ (hfailed r))

theorem heard {server : ApiPool} (h : p.Sound st requests cfg k)
    (hanswer : ∀ j r reply, requests[j]? = some r → server.result j = some reply → Honest st k r (reply.answer r)) :
    (p.heard server).Sound st requests cfg k := by
  cases p with
  | idle a => exact h
  | asks r c => exact h
  | waits j r c =>
    simp only [Process.heard]
    cases hr : server.result j with
    | none => exact h
    | some reply => exact .of (h.2 k (le_refl k) _ (hanswer j r reply h.1 hr))

end Process.Sound

namespace Fleet.Sound

variable {st : AppState} {cfgs : List EdgeConfig} {k k' : Known} {f : Fleet}

theorem later (h : f.Sound st cfgs k) (hle : k ≤ k') : f.Sound st cfgs k' :=
  ⟨h.1, fun n cfg p hp => (h.2 n cfg p hp).later hle⟩

/-- Something happens to one terminal. -/
theorem modify {g : EdgeConfig × Process → EdgeConfig × Process} (h : f.Sound st cfgs k) (n : Nat)
    (hcfg : ∀ t, (g t).1 = t.1)
    (hg : ∀ t, f.terminals[n]? = some t → t.2.Sound st f.requests t.1 k → (g t).2.Sound st f.requests t.1 k) :
    Fleet.Sound st cfgs k { f with terminals := f.terminals.modify n g } := by
  refine ⟨?_, fun m cfg p hp => ?_⟩
  · rw [← h.1]
    refine List.ext_getElem? (fun m => ?_)
    show ((f.terminals.modify n g).map (·.1))[m]? = (f.terminals.map (·.1))[m]?
    rw [List.getElem?_map, List.getElem?_map, List.getElem?_modify]
    cases f.terminals[m]? with
    | none => rfl
    | some t =>
      by_cases hn : n = m
      · simp [hn, hcfg]
      · simp [hn]
  · have hp : (f.terminals.modify n g)[m]? = some (cfg, p) := hp
    rw [List.getElem?_modify] at hp
    obtain ⟨t, ht, heq⟩ := Option.map_eq_some_iff.1 hp
    by_cases hn : n = m
    · subst hn
      rw [if_pos rfl] at heq
      have hsound := hg t ht (h.2 n t.1 t.2 ht)
      rw [heq, ← hcfg t, heq] at hsound
      exact hsound
    · rw [if_neg hn] at heq
      exact h.2 m cfg p (heq ▸ ht)

theorem turn {g : Process → Process} (h : f.Sound st cfgs k) (n : Nat)
    (hg : ∀ cfg p, f.terminals[n]? = some (cfg, p) → p.Sound st f.requests cfg k → (g p).Sound st f.requests cfg k) :
    (f.turn n g).Sound st cfgs k :=
  h.modify n (fun _ => rfl) (fun t ht => hg t.1 t.2 ht)

theorem arrive (h : f.Sound st cfgs k) (r : Request) : (f.arrive st r).Sound st cfgs k :=
  ⟨h.1, fun n cfg p hp => (h.2 n cfg p hp).arrive r⟩

/-- **Every action keeps what the agents hold true**, if what device-api has answered is. -/
theorem step (hF : st.formats.LawfulIds) (h : f.Sound st cfgs k)
    (hanswer : ∀ j r reply, f.requests[j]? = some r → f.server.result j = some reply → Honest st k r (reply.answer r))
    (a : FleetAction) : (f.step st a).Sound st cfgs k := by
  cases a with
  | arrive r => exact h.arrive r
  | serve j t => exact h
  | start n o => exact h.turn n (fun _ _ _ hp => hp.started hF o)
  | send n =>
    cases hr : f.request n with
    | none =>
      rw [show f.step st (.send n) = f by simp only [Fleet.step, hr]]
      exact h
    | some r =>
      rw [show f.step st (.send n) = (f.arrive st r).turn n (.sent f.requests.length) by simp only [Fleet.step, hr]]
      refine (h.arrive r).turn n (fun cfg p hp hsound => ?_)
      unfold Fleet.request at hr
      rw [show f.terminals[n]? = some (cfg, p) from hp] at hr
      cases p with
      | idle a => cases hr
      | asks r' c =>
        obtain rfl := Option.some.inj hr
        exact ⟨by rw [show (f.arrive st r').requests = f.requests ++ [r'] from rfl]; simp, hsound⟩
      | waits j r' c => cases hr
  | lose n => exact h.turn n (fun _ _ _ hp => hp.lost)
  | hear n => exact h.turn n (fun _ _ _ hp => hp.heard hanswer)
  | boot n => exact h.modify n (fun _ => rfl) (fun _ _ _ => Believes.new _ _)

end Fleet.Sound

section

variable {st : AppState} {w : World} {cfgs : List EdgeConfig}

/-- **Whatever happens in the fleet, the agents hold what was so.** -/
theorem fleet_sound (hF : st.formats.LawfulIds) (hw : w.data = {}) (as : List FleetAction) :
    (fleet st w cfgs as).Sound st cfgs (seen st w cfgs as) := by
  induction as using List.reverseRecOn with
  | nil =>
    refine ⟨?_, fun n cfg p hp => ?_⟩
    · show (cfgs.map _).map _ = cfgs
      rw [List.map_map]
      exact List.map_id _
    · have hp : (cfgs.map (fun cfg => (cfg, Process.idle (.new cfg))))[n]? = some (cfg, p) := hp
      rw [List.getElem?_map] at hp
      obtain ⟨cfg', -, heq⟩ := Option.map_eq_some_iff.1 hp
      obtain ⟨rfl, rfl⟩ := Prod.mk.inj heq
      exact Believes.new _ _
  | append_singleton as a ih =>
    have hanswer : ∀ j r reply, (fleet st w cfgs as).requests[j]? = some r →
        (fleet st w cfgs as).server.result j = some reply → Honest st (seen st w cfgs as) r (reply.answer r) := by
      intro j r reply hr hreply
      rw [served as] at hreply
      rw [seen_eq]
      exact (reply_shown hw hr hreply).honest
    rw [fleet_snoc]
    exact (ih.step hF hanswer a).later (seen_mono (List.prefix_append _ _))

theorem agent_believes (hF : st.formats.LawfulIds) (hw : w.data = {}) {as : List FleetAction} {n : Nat} {a : EdgeAgent}
    (h : (fleet st w cfgs as).agent n = some a) : cfgs[n]? = some a.cfg ∧ Believes a.cfg (seen st w cfgs as) a := by
  obtain ⟨cfg, hn⟩ := Fleet.agent_eq_some.1 h
  obtain ⟨hcfgs, hsound⟩ := @fleet_sound st w cfgs hF hw as
  have hbelieves : Believes cfg (seen st w cfgs as) a := hsound n cfg _ hn
  refine ⟨?_, hbelieves.config ▸ hbelieves⟩
  rw [← hcfgs, List.getElem?_map, hn, hbelieves.config]
  rfl

end
/-- **An agent holds what was so.**  In every run of any number of terminals with device-api, whatever requests and
answers are lost or late, an agent between two operations holds a session only if it was in the store at some moment,
just as the agent holds it, with the agent's dog as a party; it shows `InSession` only if that session was active at
some moment; and it holds an offer only if that invite was in the store, for its dog. -/
theorem agent_grounded (st : AppState) (hF : st.formats.LawfulIds) (w : World) (hw : w.data = {})
    (cfgs : List EdgeConfig) (as : List FleetAction) (n : Nat) (a : EdgeAgent)
    (h : (fleet st w cfgs as).agent n = some a) :
    (∀ x, a.session = some x → x.hasDog a.cfg.dogId ∧ ∃ earlier, earlier <+: as ∧
      (fleet st w cfgs earlier).server.state.data.sessions.get x.id = some x) ∧
    (a.ux = .inSession → ∃ x y earlier, a.session = some x ∧ earlier <+: as ∧
      (fleet st w cfgs earlier).server.state.data.sessions.get x.id = some y ∧ y.state = .active) ∧
    (∀ inv lure, a.lastOffer = some (inv, lure) → inv.toDog = a.cfg.dogId ∧ ∃ earlier, earlier <+: as ∧
      (fleet st w cfgs earlier).server.state.data.invites.get inv.id = some inv) := by
  obtain ⟨-, hbelieves⟩ := agent_believes hF hw h
  refine ⟨fun x hx => ?_, fun hux => ?_, fun inv lure ho => ?_⟩
  · exact (hbelieves.session x hx).symm
  · obtain ⟨x, y, hx, ⟨earlier, hle, hy⟩, hid, hactive⟩ := hbelieves.contact hux
    exact ⟨x, y, earlier, hx, hle, hid ▸ hy, hactive⟩
  · exact (hbelieves.offer _ ho).symm

/-- Request `j` of terminal `n` goes out, is handled and answered. -/
def exchange (n j : Nat) : List FleetAction := .send n :: handling j ++ [.hear n]

/-- Dog 1 calls dog 2, whose terminal learns of it, accepts and reports its media; then terminal 1 asks for its session
and reports its media. -/
def metAtTerminals : List FleetAction :=
  ((meeting.map (·.2)).take 4).map .arrive ++ handling 0 ++ handling 1 ++ handling 2 ++ handling 3 ++
    .start 1 .pollIncoming :: exchange 1 4 ++ .start 1 .acceptIncoming :: exchange 1 5 ++ exchange 1 6 ++
    .start 0 .syncActive :: exchange 0 7 ++ exchange 0 8

/-- The terminals of dogs 1 and 2 after that. -/
def metAt : Fleet := fleet bench fresh [terminal1, terminal2] metAtTerminals

theorem agent_grounded_met : ∃ a x y earlier, metAt.agent 0 = some a ∧ a.session = some x ∧ earlier <+: metAtTerminals ∧
    (fleet bench fresh [terminal1, terminal2] earlier).server.state.data.sessions.get x.id = some y ∧
    y.state = .active := by
  obtain ⟨a, ha, hux⟩ := (Option.any_eq_true _ _).1
    (show (metAt.agent 0).any (fun a => decide (a.ux = .inSession)) = true by decide +kernel)
  obtain ⟨x, y, earlier, hx, hle, hy, hactive⟩ := (agent_grounded bench decimals_lawful.toLawfulIds fresh rfl
    [terminal1, terminal2] metAtTerminals 0 a ha).2.1 (of_decide_eq_true hux)
  exact ⟨a, x, y, earlier, ha, hx, hle, hy, hactive⟩

/-- **Agents never disagree about a session.**  Two agents that hold a session of one id hold one session, whatever they
know of its state and its segment: over the same invite, between the same dogs, with the same start and the same cap;
and both their dogs are parties. -/
theorem agents_agree (st : AppState) (hF : st.formats.LawfulIds) (w : World) (hw : w.data = {}) (cfgs : List EdgeConfig)
    (as : List FleetAction) (n m : Nat) (a b : EdgeAgent) (ha : (fleet st w cfgs as).agent n = some a)
    (hb : (fleet st w cfgs as).agent m = some b) (x y : SessionRecord) (hx : a.session = some x)
    (hy : b.session = some y) (hid : x.id = y.id) : x.Kin y ∧ x.hasDog a.cfg.dogId ∧ x.hasDog b.cfg.dogId := by
  obtain ⟨hseen, hdog⟩ := (agent_believes hF hw ha).2.session x hx
  obtain ⟨hseen', hdog'⟩ := (agent_believes hF hw hb).2.session y hy
  rw [seen_eq] at hseen hseen'
  obtain ⟨before, hle, hget⟩ := hseen
  obtain ⟨before', hle', hget'⟩ := hseen'
  rw [← hid] at hget'
  have hkin : x.Kin y := session_same hw hle hle' hget hget'
  exact ⟨hkin, hdog, (hkin.hasDog _).2 hdog'⟩

theorem agents_agree_met : ∃ a b x y, metAt.agent 0 = some a ∧ metAt.agent 1 = some b ∧ a.session = some x ∧
    b.session = some y ∧ x.Kin y := by
  obtain ⟨a, ha, hA⟩ := (Option.any_eq_true _ _).1
    (show (metAt.agent 0).any (fun a => decide (a.session.map (·.id) = some ⟨1⟩)) = true by decide +kernel)
  obtain ⟨b, hb, hB⟩ := (Option.any_eq_true _ _).1
    (show (metAt.agent 1).any (fun b => decide (b.session.map (·.id) = some ⟨1⟩)) = true by decide +kernel)
  obtain ⟨x, hx, hxid⟩ := Option.map_eq_some_iff.1 (of_decide_eq_true hA)
  obtain ⟨y, hy, hyid⟩ := Option.map_eq_some_iff.1 (of_decide_eq_true hB)
  exact ⟨a, b, x, y, ha, hb, hx, hy, (agents_agree bench decimals_lawful.toLawfulIds fresh rfl [terminal1, terminal2]
    metAtTerminals 0 1 a b ha hb x y hx hy (hxid.trans hyid.symm)).1⟩

/-- **A dog is in contact by the will of both sides.**  The session an agent holds is over an invite that a request with
the credentials of its caller sent, which found the two dogs bonded both ways, present and allowed contact at the time
it read, and that a request with the credentials of its callee took up, which found that dog present and allowed at the
time it read. -/
theorem agent_consented (st : AppState) (hF : st.formats.LawfulIds) (w : World) (hw : w.data = {})
    (cfgs : List EdgeConfig) (as : List FleetAction) (n : Nat) (a : EdgeAgent)
    (h : (fleet st w cfgs as).agent n = some a) (x : SessionRecord) (hx : a.session = some x) :
    Consented st w (fleet st w cfgs as).requests (fleet st w cfgs as).server.made x := by
  have hseen := ((agent_believes hF hw h).2.session x hx).1
  rw [seen_eq] at hseen
  obtain ⟨before, hle, hget⟩ := hseen
  exact (session_consented hw hget).mono hle

theorem agent_consented_met : ∃ a x, metAt.agent 1 = some a ∧ a.session = some x ∧
    Consented bench fresh metAt.requests metAt.server.made x := by
  obtain ⟨a, ha, hA⟩ := (Option.any_eq_true _ _).1
    (show (metAt.agent 1).any (fun a => a.session.isSome) = true by decide +kernel)
  obtain ⟨x, hx⟩ := Option.isSome_iff_exists.1 hA
  exact ⟨a, x, ha, hx, agent_consented bench decimals_lawful.toLawfulIds fresh rfl [terminal1, terminal2]
    metAtTerminals 1 a ha x hx⟩

end CanisLink
