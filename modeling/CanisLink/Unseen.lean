import CanisLink.Announce
import CanisLink.Requests
import CanisLink.Erase
/-!
# Unseen — requests that read, and requests that are refused

A request that only reads, or that lacks the credentials it needs, may store a default policy and nothing else; no call
of any handler can tell.  Whatever other requests are doing, it makes no difference to them.
-/
namespace CanisLink

open Interleave (Prog Pool own Blind)
open Api

/-- The worlds differ at most in the default policies that are stored, and in the terminals that are bound. -/
structure World.Alike (w w' : World) : Prop where
  presence : w.data.presence = w'.data.presence
  bonds : w.data.bonds = w'.data.bonds
  invites : w.data.invites = w'.data.invites
  sessions : w.data.sessions = w'.data.sessions
  policies : w.data.policies.current = w'.data.policies.current
  db : w.db = w'.db
  hub : w.hub = w'.hub
  nextUuid : w.nextUuid = w'.nextUuid

theorem World.Alike.refl (w : World) : w.Alike w := ⟨rfl, rfl, rfl, rfl, rfl, rfl, rfl, rfl⟩

/-- A call that reads. -/
def Call.reads : Call → Prop
  | .utcNow | .presenceGet .. | .listPresent _ | .sessionsForDog _ | .policiesEnsure _ => True
  | _ => False

namespace Request

/-- A request that asks for something and changes nothing. -/
def reads : Request → Bool
  | .getPresence _ | .listPresence | .getConfig .. | .activeSession .. => true
  | _ => false

/-- A request without the credentials that its handler asks for. -/
def refused (st : AppState) : Request → Bool
  | .postPresence h r => !(verifyDevice st h r.terminalId r.dogId).isOk
  | .getConfig h q | .incomingInvite h q | .activeSession h q => !(verifyDevice st h q.terminalId q.dogId).isOk
  | .createInvite h b => !(verifyDevice st h b.terminalId b.dogId).isOk
  | .endSession h _ b => !(verifyDevice st h b.terminalId b.dogId).isOk
  | .cancelInvite h _ b => (cancelCaller st h b).isNone
  | .acceptInvite h _ b | .mediaReady h _ b | .again h _ b => (jsonCaller st h b).isNone
  | .stewardEstop h _ _ | .stewardSocial h _ _ => !(verifySteward st h).isOk
  | .stewardBonds h _ _ _ | .stewardPolicy h _ => !(verifySteward st h).isOk
  | .devEnroll .. | .devBootstrapBond .. | .getPresence _ | .listPresence | .policyTick => false

def unseen (st : AppState) (r : Request) : Bool := r.reads || r.refused st

end Request

/-! ## The calls -/

section

variable {st : AppState}

/-- **No call tells alike worlds apart.** -/
theorem exec_alike (t : DateTime) (c : Call) {w w' : World} (h : w.Alike w') :
    (exec st t c w).1 = (exec st t c w').1 ∧ (exec st t c w).2.Alike (exec st t c w').2 := by
  obtain ⟨⟨presence, bonds, invites, sessions, policies⟩, db, hub, n⟩ := w
  obtain ⟨⟨presence', bonds', invites', sessions', policies'⟩, db', hub', n'⟩ := w'
  obtain ⟨hpresence, hbonds, hinvites, hsessions, hpolicies, hdb, hhub, hn⟩ := h
  dsimp only at hpresence hbonds hinvites hsessions hpolicies hdb hhub hn
  subst hpresence hbonds hinvites hsessions hdb hhub hn
  cases c with
  | invitesInsert inv =>
    simp only [exec]
    split
    · exact ⟨rfl, rfl, rfl, rfl, rfl, hpolicies, rfl, rfl, rfl⟩
    · exact ⟨rfl, rfl, rfl, rfl, rfl, hpolicies, rfl, rfl, rfl⟩
  | sessionsInsert x =>
    simp only [exec]
    split
    · exact ⟨rfl, rfl, rfl, rfl, rfl, hpolicies, rfl, rfl, rfl⟩
    · exact ⟨rfl, rfl, rfl, rfl, rfl, hpolicies, rfl, rfl, rfl⟩
  | policiesEnsure d =>
    have hanswer : (policies.ensure d).1 = (policies'.ensure d).1 := by
      rw [PolicyStore.ensure_fst, PolicyStore.ensure_fst, hpolicies]
    refine ⟨hanswer, rfl, rfl, rfl, rfl, funext (fun d' => ?_), rfl, rfl, rfl⟩
    show (policies.ensure d).2.current d' = (policies'.ensure d).2.current d'
    rw [PolicyStore.current_ensure, PolicyStore.current_ensure, hpolicies]
  | policiesSet p =>
    refine ⟨rfl, rfl, rfl, rfl, rfl, funext (fun d' => ?_), rfl, rfl, rfl⟩
    show (policies.set p).current d' = (policies'.set p).current d'
    rw [PolicyStore.current_set, PolicyStore.current_set, hpolicies]
  | bindTerminal tid d =>
    refine ⟨rfl, rfl, rfl, rfl, rfl, funext (fun d' => ?_), rfl, rfl, rfl⟩
    show (policies.bindTerminal tid d).current d' = (policies'.bindTerminal tid d).current d'
    rw [PolicyStore.current_bindTerminal, PolicyStore.current_bindTerminal, hpolicies]
  | _ => exact ⟨rfl, rfl, rfl, rfl, rfl, hpolicies, rfl, rfl, rfl⟩

/-- A call that reads leaves a world like the one before. -/
theorem reads_alike (t : DateTime) (c : Call) {w w' : World} (hc : c.reads) (h : w.Alike w') :
    (exec st t c w).2.Alike w' := by
  cases c with
  | policiesEnsure d =>
    refine ⟨h.presence, h.bonds, h.invites, h.sessions, funext (fun d' => ?_), h.db, h.hub, h.nextUuid⟩
    show (w.data.policies.ensure d).2.current d' = w'.data.policies.current d'
    rw [PolicyStore.current_ensure, h.policies]
  | utcNow => exact h
  | presenceGet d now => exact h
  | listPresent now => exact h
  | sessionsForDog d => exact h
  | _ => exact hc.elim

theorem alike_blind (st : AppState) : Blind (exec st) Call.reads World.Alike where
  congr t c _ _ h := exec_alike t c h
  hidden t c _ _ hc h := reads_alike t c hc h

/-! ## The handlers -/

theorem error_of_not_ok {ε : Type} {e : Except ε Unit} (h : (!e.isOk) = true) : ∃ s, e = .error s := by
  cases e with
  | error s => exact ⟨s, rfl⟩
  | ok u => cases h

/-- A handler of a free-form body that refuses it when it names no caller. -/
theorem json_refused {h : HeaderMap} {b : JsonBody} {p : Api Reply} (hj : (jsonCaller st h b).isNone = true)
    (hdog : st.formats.parseUuid b.dogId = none → ∃ answer, p = .done answer)
    (hterminal : ∀ dog, st.formats.parseUuid b.dogId = some dog → st.formats.parseUuid b.terminalId = none →
      ∃ answer, p = .done answer)
    (hp : ∀ dog terminal, st.formats.parseUuid b.dogId = some dog → st.formats.parseUuid b.terminalId = some terminal →
      ∀ s, verifyDevice st h ⟨terminal⟩ ⟨dog⟩ = .error s → ∃ answer, p = .done answer) :
    ∃ answer, p = .done answer := by
  unfold jsonCaller at hj
  cases hd : st.formats.parseUuid b.dogId with
  | none => exact hdog hd
  | some dog =>
    cases ht : st.formats.parseUuid b.terminalId with
    | none => exact hterminal dog hd ht
    | some terminal =>
      cases hv : verifyDevice st h ⟨terminal⟩ ⟨dog⟩ with
      | error s => exact hp dog terminal hd ht s hv
      | ok u =>
        rw [hd, ht] at hj
        simp [hv, Except.isOk, Except.toBool] at hj

/-- **A refused request makes no call.** -/
theorem handle_refused {r : Request} (hr : r.refused st = true) : ∃ answer, handle st r = .done answer := by
  cases r with
  | postPresence h rep =>
    obtain ⟨s, hs⟩ := error_of_not_ok hr
    exact ⟨_, by show postPresence st h rep = _; unfold postPresence; rw [hs]; rfl⟩
  | getConfig h q =>
    obtain ⟨s, hs⟩ := error_of_not_ok hr
    exact ⟨_, by show getConfig st h q = _; unfold getConfig; rw [hs]; rfl⟩
  | incomingInvite h q =>
    obtain ⟨s, hs⟩ := error_of_not_ok hr
    exact ⟨_, by show incomingInvite st h q = _; unfold incomingInvite; rw [hs]; rfl⟩
  | activeSession h q =>
    obtain ⟨s, hs⟩ := error_of_not_ok hr
    exact ⟨_, by show activeSession st h q = _; unfold activeSession; rw [hs]; rfl⟩
  | createInvite h b =>
    obtain ⟨s, hs⟩ := error_of_not_ok hr
    exact ⟨_, by show createInvite st h b = _; unfold createInvite; rw [hs]; rfl⟩
  | endSession h i b =>
    obtain ⟨s, hs⟩ := error_of_not_ok hr
    exact ⟨_, by show endSession st h i b = _; unfold endSession; rw [hs]; rfl⟩
  | cancelInvite h i b =>
    show ∃ answer, cancelInvite st h i b = .done answer
    change (cancelCaller st h b).isNone = true at hr
    unfold cancelCaller at hr
    unfold cancelInvite
    cases hd : st.formats.parseUuid b.dogId with
    | none => exact ⟨_, rfl⟩
    | some dog =>
      cases hx : extractDeviceToken st h with
      | error s => exact ⟨_, rfl⟩
      | ok p =>
        obtain ⟨tid, token⟩ := p
        cases hv : verifyPair st tid ⟨dog⟩ token with
        | false => exact ⟨_, by dsimp only; rw [hv]; rfl⟩
        | true =>
          rw [hd, hx] at hr
          simp [hv] at hr
  | acceptInvite h i b =>
    exact json_refused (p := acceptInviteHandler st h i b) hr
      (fun hd => ⟨_, by unfold acceptInviteHandler; rw [hd]; rfl⟩)
      (fun dog hd ht => ⟨_, by unfold acceptInviteHandler; rw [hd, ht]; rfl⟩)
      (fun dog terminal hd ht s hs => ⟨_, by unfold acceptInviteHandler; rw [hd, ht]; dsimp only; rw [hs]; rfl⟩)
  | mediaReady h i b =>
    exact json_refused (p := mediaReady st h i b) hr
      (fun hd => ⟨_, by unfold mediaReady; rw [hd]; rfl⟩)
      (fun dog hd ht => ⟨_, by unfold mediaReady; rw [hd, ht]; rfl⟩)
      (fun dog terminal hd ht s hs => ⟨_, by unfold mediaReady; rw [hd, ht]; dsimp only; rw [hs]; rfl⟩)
  | again h i b =>
    exact json_refused (p := again st h i b) hr
      (fun hd => ⟨_, by unfold again; rw [hd]; rfl⟩)
      (fun dog hd ht => ⟨_, by unfold again; rw [hd, ht]; rfl⟩)
      (fun dog terminal hd ht s hs => ⟨_, by unfold again; rw [hd, ht]; dsimp only; rw [hs]; rfl⟩)
  | stewardEstop h d on =>
    obtain ⟨s, hs⟩ := error_of_not_ok hr
    exact ⟨_, by show stewardEstop st h d on = _; unfold stewardEstop; rw [hs]; rfl⟩
  | stewardSocial h d on =>
    obtain ⟨s, hs⟩ := error_of_not_ok hr
    exact ⟨_, by show stewardSocial st h d on = _; unfold stewardSocial; rw [hs]; rfl⟩
  | stewardBonds h a b weight =>
    obtain ⟨s, hs⟩ := error_of_not_ok hr
    exact ⟨_, by show stewardBonds st h a b weight = _; unfold stewardBonds; rw [hs]; rfl⟩
  | stewardPolicy h b =>
    obtain ⟨s, hs⟩ := error_of_not_ok hr
    exact ⟨_, by show stewardPolicy st h b = _; unfold stewardPolicy; rw [hs]; rfl⟩
  | _ => cases hr

/-- A request that reads makes only calls that read. -/
theorem handle_reads {r : Request} (hr : r.reads = true) : (handle st r).All Call.reads := by
  cases r with
  | getPresence d =>
    refine ⟨trivial, fun now => ⟨trivial, fun found => ?_⟩⟩
    cases found <;> trivial
  | listPresence => exact ⟨trivial, fun now => ⟨trivial, fun found => trivial⟩⟩
  | getConfig h q =>
    show (getConfig st h q).All Call.reads
    unfold getConfig
    cases verifyDevice st h q.terminalId q.dogId with
    | error s => trivial
    | ok u => exact ⟨trivial, fun p => trivial⟩
  | activeSession h q =>
    show (activeSession st h q).All Call.reads
    unfold activeSession
    cases verifyDevice st h q.terminalId q.dogId with
    | error s => trivial
    | ok u => exact ⟨trivial, fun found => trivial⟩
  | _ => cases hr

theorem handle_unseen {r : Request} (hr : r.unseen st = true) : (handle st r).All Call.reads := by
  rcases Bool.or_eq_true _ _ ▸ hr with hreads | hrefused
  · exact handle_reads hreads
  · obtain ⟨answer, h⟩ := handle_refused hrefused
    rw [h]
    trivial

end

/-! ## At work together -/

/-- Whether the request of that number is unseen. -/
def hides (st : AppState) (reqs : List Request) (i : Nat) : Bool := (reqs[i]?).any (·.unseen st)

/-- **Reads and refused requests are invisible.**  Erase them from whatever is going on: every other request makes the
same calls, is told the same at each and gives the same answer, and all that any request can see is the same at the
end. -/
theorem unseen_erased (st : AppState) (w : World) (reqs : List Request) (sched : List (Nat × DateTime)) :
    (∀ i, hides st reqs i = false →
      own i (reached st w reqs sched).log =
          own i (reached st w reqs (sched.filter (fun l => !hides st reqs l.1))).log ∧
        (reached st w reqs sched).result i =
          (reached st w reqs (sched.filter (fun l => !hides st reqs l.1))).result i) ∧
      (reached st w reqs sched).state.Alike
        (reached st w reqs (sched.filter (fun l => !hides st reqs l.1))).state := by
  have hstart : (Pool.start w (reqs.map (handle st)) : ApiPool).Erased Call.reads World.Alike (hides st reqs)
      (Pool.start w (reqs.map (handle st))) := by
    refine .start (.refl w) (fun i q hi hq => ?_)
    rw [List.getElem?_map] at hq
    obtain ⟨r, hr, rfl⟩ := Option.map_eq_some_iff.1 hq
    unfold hides at hi
    rw [hr] at hi
    exact handle_unseen hi
  have hrun : (reached st w reqs sched).Erased Call.reads World.Alike (hides st reqs)
      (reached st w reqs (sched.filter (fun l => !hides st reqs l.1))) := hstart.run (alike_blind st) sched
  refine ⟨fun i hi => ⟨hrun.told i hi, ?_⟩, hrun.state⟩
  unfold Pool.result
  rw [hrun.threads i hi]

end CanisLink
