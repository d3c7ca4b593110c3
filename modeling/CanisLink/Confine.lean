import CanisLink.Handling
import CanisLink.Reports
/-!
# Confine — what the credentials of a device confine

Outside `/v1/dev` and `/v1/steward`, a request without the token of the terminal and the dog it names leaves `AppData`.
One with the token of dog `d` touches invites and sessions of `d` alone, apart from the invites that expire, and the
presence and the policies of no other dog.
-/
namespace CanisLink

open Interleave (Prog)

/-! ## The routes -/

/-- `subscribe`: opens the dog's channel if there is none. -/
def EventHub.subscribe (hub : EventHub) (dog : DogId) : EventHub :=
  if dog ∈ hub.inner then hub else { inner := hub.inner.insert dog [] }

/-- What `device_ws` reads from its query. -/
structure WsQuery where
  dogId : Option String := none
  terminalId : Option String := none
  token : Option String := none

/-- The token of the header, or else of the query. -/
def wsToken (st : AppState) (headers : HeaderMap) (q : WsQuery) : Option String :=
  match extractDeviceToken st headers with
  | .ok (_, token) => some token
  | .error _ => q.token

/-- The checks of `device_ws`; its loop then sends the events of the dog. -/
def deviceWs (st : AppState) (headers : HeaderMap) (q : WsQuery) : Except StatusCode DogId :=
  match q.dogId.bind st.formats.parseUuid, q.terminalId.bind st.formats.parseUuid with
  | some dog, some terminal =>
    match wsToken st headers q with
    | some token => if verifyPair st ⟨terminal⟩ ⟨dog⟩ token then .ok ⟨dog⟩ else .error .unauthorized
    | none => .error .unauthorized
  | _, _ => .error .badRequest

/-- A request by its route: one with a handler, the event socket, or a page (`healthz`, the portal and whatever no
handler takes). -/
inductive Route
  | api (r : Request)
  | deviceWs (headers : HeaderMap) (q : WsQuery)
  | page

namespace Route

/-- The world after a request is handled alone. -/
def serve (st : AppState) (κ : Nat → DateTime) (w : World) : Route → World
  | api r => ((handle st r).eval (exec st) κ w).2
  | deviceWs h q =>
    match CanisLink.deviceWs st h q with
    | .ok dog => { w with hub := w.hub.subscribe dog }
    | .error _ => w
  | page => w

/-- The number of calls it makes. -/
def steps (st : AppState) (κ : Nat → DateTime) (w : World) : Route → Nat
  | api r => (handle st r).steps (exec st) κ w
  | _ => 0

/-- A route outside `/v1/dev` and `/v1/steward`; the policy tick has none. -/
def forDevices : Route → Bool
  | api (.devEnroll ..) | api (.devBootstrapBond ..) => false
  | api (.stewardEstop ..) | api (.stewardSocial ..) | api (.stewardBonds ..) | api (.stewardPolicy ..) => false
  | api .policyTick => false
  | _ => true

end Route

/-! ## The credentials -/

/-- The terminal and the dog of a free-form body. -/
def JsonBody.names (st : AppState) (b : JsonBody) : Option (TerminalId × DogId) :=
  match st.formats.parseUuid b.dogId, st.formats.parseUuid b.terminalId with
  | some dog, some terminal => some (⟨terminal⟩, ⟨dog⟩)
  | _, _ => none

/-- The dog of a free-form body with the terminal of the header, as `cancel_invite` reads them. -/
def JsonBody.namesWith (st : AppState) (h : HeaderMap) (b : JsonBody) : Option (TerminalId × DogId) :=
  match st.formats.parseUuid b.dogId, extractDeviceToken st h with
  | some dog, .ok (terminal, _) => some (terminal, ⟨dog⟩)
  | _, _ => none

/-- The terminal and the dog a request names. -/
def Request.names (st : AppState) : Request → Option (TerminalId × DogId)
  | .postPresence _ r => some (r.terminalId, r.dogId)
  | .getConfig _ q | .incomingInvite _ q | .activeSession _ q => some (q.terminalId, q.dogId)
  | .createInvite _ b => some (b.terminalId, b.dogId)
  | .endSession _ _ b => some (b.terminalId, b.dogId)
  | .cancelInvite h _ b => b.namesWith st h
  | .acceptInvite _ _ b | .mediaReady _ _ b | .again _ _ b => b.names st
  | _ => none

def Request.headers : Request → HeaderMap
  | .postPresence h _ | .getConfig h _ | .incomingInvite h _ | .activeSession h _ | .createInvite h _
  | .endSession h _ _ | .cancelInvite h _ _ | .acceptInvite h _ _ | .mediaReady h _ _ | .again h _ _ => h
  | _ => none

namespace Route

def names (st : AppState) : Route → Option (TerminalId × DogId)
  | api r => r.names st
  | deviceWs _ q =>
    match q.dogId.bind st.formats.parseUuid, q.terminalId.bind st.formats.parseUuid with
    | some dog, some terminal => some (⟨terminal⟩, ⟨dog⟩)
    | _, _ => none
  | page => none

def token (st : AppState) : Route → Option String
  | api r => (extractDeviceToken st r.headers).toOption.map (·.2)
  | deviceWs h q => wsToken st h q
  | page => none

/-- The request carries the token of the terminal and the dog it names. -/
def Carries (st : AppState) (r : Route) (t : TerminalId) (d : DogId) : Prop :=
  r.names st = some (t, d) ∧ r.token st = some (st.tokenFor t d)

end Route

/-! ## The frame -/

/-- What a request of dog `d` may do to what lies under an invite's id: it is the same, or every invite there is and was
one of `d`, but for one that is gone since it expired at an instant of the request. -/
def InviteConfined (κ : Nat → DateTime) (n : Nat) (d : DogId) (before after : Option Invite) : Prop :=
  after = before ∨ (∀ inv ∈ after, inv.hasDog d) ∧
    ∀ inv ∈ before, inv.hasDog d ∨ after = none ∧ ∃ k ≤ n, isExpired inv (κ k) = true

/-- The same for a session with its media flags. -/
def SessionConfined (d : DogId) (before after : Option SessionRecord × Option SessionExtra) : Prop :=
  after = before ∨ (∀ x ∈ after.1, x.hasDog d) ∧ ∀ x ∈ before.1, x.hasDog d

/-- What lies under a session's id. -/
def SessionStore.under (s : SessionStore) (id : SessionId) : Option SessionRecord × Option SessionExtra :=
  (s.get id, s.media.lookup id)

/-- **A request of dog `d` is confined** to the invites and sessions of `d`, and to its presence and policy. -/
structure Confined (κ : Nat → DateTime) (n : Nat) (d : DogId) (a a' : AppData) : Prop where
  invites : ∀ id, InviteConfined κ n d (a.invites.get id) (a'.invites.get id)
  sessions : ∀ id, SessionConfined d (a.sessions.under id) (a'.sessions.under id)
  presence : ∀ d', d' ≠ d → a'.presence.inner.lookup d' = a.presence.inner.lookup d'
  policies : ∀ d', d' ≠ d → a'.policies.current d' = a.policies.current d'

/-- `Uuid::new_v4` draws no id that is in use. -/
def World.Undrawn (w : World) : Prop :=
  ∀ u, w.nextUuid ≤ u → w.data.invites.get ⟨u⟩ = none ∧ w.data.sessions.get ⟨u⟩ = none

/-! ## Without the token -/

section

variable {st : AppState} {h : HeaderMap}

theorem verifyDevice_token {t : TerminalId} {d : DogId} {u : Unit} (hv : verifyDevice st h t d = .ok u) :
    (extractDeviceToken st h).toOption.map (·.2) = some (st.tokenFor t d) := by
  unfold verifyDevice at hv
  cases hx : extractDeviceToken st h with
  | error c => rw [hx] at hv; cases hv
  | ok p =>
    rw [hx] at hv
    dsimp only at hv
    split at hv
    · cases hv
    · split at hv
      · rename_i hpair
        exact congrArg some (of_decide_eq_true hpair).symm
      · cases hv

/-- A handler that makes no call when its credentials are refused. -/
theorem typed_carries {p : Api Reply} {t : TerminalId} {d : DogId}
    (hp : ∀ c, verifyDevice st h t d = .error c → ∃ answer, p = .done answer) :
    (∃ answer, p = .done answer) ∨ ∃ t' d', some (t, d) = some (t', d') ∧
      (extractDeviceToken st h).toOption.map (·.2) = some (st.tokenFor t' d') := by
  cases hv : verifyDevice st h t d with
  | error c => exact .inl (hp c hv)
  | ok u => exact .inr ⟨t, d, rfl, verifyDevice_token hv⟩

/-- The same with a free-form body. -/
theorem json_carries {p : Api Reply} {b : JsonBody}
    (hdog : st.formats.parseUuid b.dogId = none → ∃ answer, p = .done answer)
    (hterminal : ∀ dog, st.formats.parseUuid b.dogId = some dog → st.formats.parseUuid b.terminalId = none →
      ∃ answer, p = .done answer)
    (hp : ∀ dog terminal, st.formats.parseUuid b.dogId = some dog → st.formats.parseUuid b.terminalId = some terminal →
      ∀ c, verifyDevice st h ⟨terminal⟩ ⟨dog⟩ = .error c → ∃ answer, p = .done answer) :
    (∃ answer, p = .done answer) ∨
      ∃ t d, b.names st = some (t, d) ∧ (extractDeviceToken st h).toOption.map (·.2) = some (st.tokenFor t d) := by
  unfold JsonBody.names
  cases hd : st.formats.parseUuid b.dogId with
  | none => exact .inl (hdog hd)
  | some dog =>
    cases ht : st.formats.parseUuid b.terminalId with
    | none => exact .inl (hterminal dog hd ht)
    | some terminal => exact typed_carries (hp dog terminal hd ht)

/-- **A request for a device's handler** makes no call unless it carries its token; the two for anyone only read. -/
theorem carries_or_reads {r : Request} (hr : (Route.api r).forDevices = true) :
    ((∃ answer, handle st r = .done answer) ∨ ∃ t d, (Route.api r).Carries st t d) ∨
      ∀ κ w, ((handle st r).eval (exec st) κ w).2 = w := by
  cases r with
  | getPresence d =>
    refine .inr (fun κ w => ?_)
    show ((getPresence d).eval (exec st) κ w).2 = w
    unfold getPresence
    simp only [Api.utcNow, Api.presenceGet, Prog.op_bind, Prog.pure_eq, Prog.eval_call, exec]
    cases w.data.presence.get d (κ 0) <;> rfl
  | listPresence => exact .inr (fun κ w => rfl)
  | postPresence h rep =>
    exact .inl (typed_carries (p := postPresence st h rep) (h := h) (t := rep.terminalId) (d := rep.dogId)
      (fun c hc => ⟨_, by unfold postPresence; rw [hc]; rfl⟩))
  | getConfig h q =>
    exact .inl (typed_carries (p := getConfig st h q) (h := h) (t := q.terminalId) (d := q.dogId)
      (fun c hc => ⟨_, by unfold getConfig; rw [hc]; rfl⟩))
  | createInvite h b =>
    exact .inl (typed_carries (p := createInvite st h b) (h := h) (t := b.terminalId) (d := b.dogId)
      (fun c hc => ⟨_, by unfold createInvite; rw [hc]; rfl⟩))
  | incomingInvite h q =>
    exact .inl (typed_carries (p := incomingInvite st h q) (h := h) (t := q.terminalId) (d := q.dogId)
      (fun c hc => ⟨_, by unfold incomingInvite; rw [hc]; rfl⟩))
  | activeSession h q =>
    exact .inl (typed_carries (p := activeSession st h q) (h := h) (t := q.terminalId) (d := q.dogId)
      (fun c hc => ⟨_, by unfold activeSession; rw [hc]; rfl⟩))
  | endSession h i b =>
    exact .inl (typed_carries (p := endSession st h i b) (h := h) (t := b.terminalId) (d := b.dogId)
      (fun c hc => ⟨_, by unfold endSession; rw [hc]; rfl⟩))
  | cancelInvite h i b =>
    cases hd : st.formats.parseUuid b.dogId with
    | none => exact .inl (.inl ⟨_, show cancelInvite st h i b = _ by unfold cancelInvite; rw [hd]; rfl⟩)
    | some dog =>
      cases hx : extractDeviceToken st h with
      | error c => exact .inl (.inl ⟨_, show cancelInvite st h i b = _ by unfold cancelInvite; rw [hd, hx]; rfl⟩)
      | ok p =>
        obtain ⟨terminal, token⟩ := p
        cases hv : verifyPair st terminal ⟨dog⟩ token with
        | false =>
          exact .inl (.inl ⟨_, show cancelInvite st h i b = _ by
            unfold cancelInvite; rw [hd, hx]; dsimp only; rw [hv]; rfl⟩)
        | true =>
          have hnames : b.namesWith st h = some (terminal, ⟨dog⟩) := by
            unfold JsonBody.namesWith
            rw [hd, hx]
          have htoken : (extractDeviceToken st h).toOption.map (·.2) = some (st.tokenFor terminal ⟨dog⟩) := by
            rw [hx]
            exact congrArg some (of_decide_eq_true hv).symm
          exact .inl (.inr ⟨_, _, hnames, htoken⟩)
  | acceptInvite h i b =>
    exact .inl (json_carries (p := acceptInviteHandler st h i b) (h := h) (b := b)
      (fun hd => ⟨_, by unfold acceptInviteHandler; rw [hd]; rfl⟩)
      (fun dog hd ht => ⟨_, by unfold acceptInviteHandler; rw [hd, ht]; rfl⟩)
      (fun dog terminal hd ht c hc => ⟨_, by unfold acceptInviteHandler; rw [hd, ht]; dsimp only; rw [hc]; rfl⟩))
  | mediaReady h i b =>
    exact .inl (json_carries (p := mediaReady st h i b) (h := h) (b := b)
      (fun hd => ⟨_, by unfold mediaReady; rw [hd]; rfl⟩)
      (fun dog hd ht => ⟨_, by unfold mediaReady; rw [hd, ht]; rfl⟩)
      (fun dog terminal hd ht c hc => ⟨_, by unfold mediaReady; rw [hd, ht]; dsimp only; rw [hc]; rfl⟩))
  | again h i b =>
    exact .inl (json_carries (p := again st h i b) (h := h) (b := b)
      (fun hd => ⟨_, by unfold again; rw [hd]; rfl⟩)
      (fun dog hd ht => ⟨_, by unfold again; rw [hd, ht]; rfl⟩)
      (fun dog terminal hd ht c hc => ⟨_, by unfold again; rw [hd, ht]; dsimp only; rw [hc]; rfl⟩))
  | _ => cases hr

end

/-! ## With the token -/

section

variable {st : AppState} {κ : Nat → DateTime} {n : Nat} {u : Uuid} {w : World} {r : Request} {l : Ledger}
  {t : TerminalId} {d : DogId}

theorem JsonBody.names_dog {b : JsonBody} {dog : Uuid} (hd : st.formats.parseUuid b.dogId = some dog)
    (h : b.names st = some (t, d)) : d = ⟨dog⟩ := by
  unfold JsonBody.names at h
  rw [hd] at h
  cases ht : st.formats.parseUuid b.terminalId with
  | none => rw [ht] at h; cases h
  | some terminal => rw [ht] at h; cases h; rfl

theorem JsonBody.namesWith_dog {h : HeaderMap} {b : JsonBody} {dog : Uuid}
    (hd : st.formats.parseUuid b.dogId = some dog) (hn : b.namesWith st h = some (t, d)) : d = ⟨dog⟩ := by
  unfold JsonBody.namesWith at hn
  rw [hd] at hn
  cases hx : extractDeviceToken st h with
  | error c => rw [hx] at hn; cases hn
  | ok p => rw [hx] at hn; cases hn; rfl

theorem InviteConfined.gone {o : Option Invite} (h : ∀ inv ∈ o, inv.hasDog d) : InviteConfined κ n d o none :=
  .inr ⟨fun _ h => (Option.not_mem_none _ h).elim, fun inv hinv => .inl (h inv hinv)⟩

theorem InviteConfined.swept {k : Nat} (hk : k ≤ n) (o : Option Invite) :
    InviteConfined κ n d o (o.filter (fun inv => !isExpired inv (κ k))) := by
  cases o with
  | none => exact .inl rfl
  | some inv =>
    cases hexp : isExpired inv (κ k) with
    | false => exact .inl (by simp [Option.filter, hexp])
    | true =>
      have hnone : (some inv).filter (fun inv => !isExpired inv (κ k)) = none := by simp [Option.filter, hexp]
      rw [hnone]
      refine .inr ⟨fun _ h => (Option.not_mem_none _ h).elim, fun inv' hinv' => .inr ⟨rfl, k, hk, ?_⟩⟩
      cases hinv'
      exact hexp

/-- **The invites after a request** that names `d`. -/
theorem Handled.invites_confined (hh : Handled st κ n u w r l) (hu : w.Undrawn) (hn : r.names st = some (t, d))
    (id : InviteId) : InviteConfined κ n d (w.data.invites.get id) (l.invites id) := by
  have hswept : InviteConfined κ n d (w.data.invites.get id) ((w.ledger.expire (κ 0)).invites id) :=
    .swept (Nat.zero_le n) _
  have hclose : ∀ {l : Ledger} {i : InviteId} {inv : Invite}, w.data.invites.get i = some inv → inv.hasDog d →
      InviteConfined κ n d (w.data.invites.get id) (l.invites id) →
      InviteConfined κ n d (w.data.invites.get id) ((l.close i).invites id) := by
    intro l i inv found party hl
    show InviteConfined κ n d _ (if id = i then none else l.invites id)
    by_cases hid : id = i
    · rw [if_pos hid, hid, found]
      exact .gone (fun inv' hinv' => by cases hinv'; exact party)
    · rw [if_neg hid]
      exact hl
  cases hh with
  | swept handler expires within => exact .swept within _
  | @rang h b inv through caller drawn made =>
    cases hn
    rw [Ledger.save_invites]
    show InviteConfined κ n _ _ (if id = inv.id then some inv else (w.ledger.expire (κ 0)).invites id)
    by_cases hid : id = inv.id
    · rw [if_pos hid, hid, show w.data.invites.get inv.id = none from (hu _ drawn.1).1]
      exact .inr ⟨fun inv' hinv' => by cases hinv'; exact .inl caller, fun _ h => (Option.not_mem_none _ h).elim⟩
    · rw [if_neg hid]
      exact hswept
  | cancelled caller found party =>
    rw [Ledger.save_invites]
    obtain rfl := JsonBody.namesWith_dog caller hn
    exact hclose found party (.inl rfl)
  | clashed through begins clash =>
    obtain ⟨hcaller, found, -, hto⟩ := acceptThrough_some through
    obtain rfl := JsonBody.names_dog (jsonCaller_some hcaller) hn
    exact hclose found (.inr hto) hswept
  | began through begins drawn inserted =>
    obtain ⟨hcaller, found, -, hto⟩ := acceptThrough_some through
    obtain rfl := JsonBody.names_dog (jsonCaller_some hcaller) hn
    rw [Ledger.save_invites, Ledger.save_invites]
    exact hclose (l := w.ledger.expire (κ 0)) found (.inr hto) hswept
  | marked => rw [Ledger.save_invites]; exact .inl rfl
  | renewed => rw [Ledger.save_invites]; exact .inl rfl
  | ended => exact .inl (congrFun (Ledger.save_invites st _ _) id)
  | aside => exact .inl rfl
  | _ => cases hn

/-! What the operations of the session store touch. -/

theorem SessionConfined.touched {s s' : SessionStore} {i : SessionId} (hother : ∀ {k}, k ≠ i → s'.under k = s.under k)
    (hafter : ∀ x ∈ s'.get i, x.hasDog d) (hbefore : ∀ x ∈ s.get i, x.hasDog d) (id : SessionId) :
    SessionConfined d (s.under id) (s'.under id) := by
  by_cases hid : id = i
  · rw [hid]
    exact .inr ⟨hafter, hbefore⟩
  · exact .inl (hother hid)

namespace SessionStore

variable {s s' : SessionStore} {x : SessionRecord} {i : SessionId}

theorem insert_confined (h : s.insert x = .ok s') (hnew : s.get x.id = none) (hx : x.hasDog d) (id : SessionId) :
    SessionConfined d (s.under id) (s'.under id) := by
  have hget : s'.get x.id = some x := by rw [get_insert h, if_pos rfl]
  refine .touched (i := x.id) (fun {k} hk => ?_) (fun y hy => ?_) (fun y hy => ?_) id
  · unfold under
    rw [get_insert h, if_neg hk, (insert_ok h).2.2, HashMap.lookup_insert, if_neg hk]
  · cases hget.symm.trans hy
    exact hx
  · rw [hnew] at hy
    cases hy

theorem update_confined {f : SessionRecord → SessionRecord} (found : s.get i = some x) (hx : x.hasDog d)
    (hfx : (f x).hasDog d) (id : SessionId) : SessionConfined d (s.under id) ((s.update i f).2.under id) := by
  have hmedia : (s.update i f).2.media = s.media := by
    unfold update
    split <;> rfl
  refine .touched (i := i) (fun hk => ?_) (fun y hy => ?_) (fun y hy => ?_) id
  · unfold under
    rw [get_update, if_neg hk, hmedia]
  · rw [get_update, if_pos rfl, found] at hy
    cases hy
    exact hfx
  · cases found.symm.trans hy
    exact hx

theorem endSession_confined (found : s.get i = some x) (hx : x.hasDog d) (id : SessionId) :
    SessionConfined d (s.under id) ((s.endSession i).2.under id) := by
  refine .touched (i := i) (fun {k} hk => ?_) (fun y hy => ?_) (fun y hy => ?_) id
  · have hmedia : (s.endSession i).2.media.lookup k = s.media.lookup k := by
      unfold endSession
      split
      · rfl
      · exact (HashMap.lookup_erase _ _ _).trans (if_neg hk)
    unfold under
    rw [get_endSession, if_neg hk, hmedia]
  · rw [get_endSession, if_pos rfl] at hy
    cases hy
  · cases found.symm.trans hy
    exact hx

theorem hasDog_of_mark {dog : DogId} {ready : Bool} {e e' : SessionExtra} (h : mark x dog ready e = some e') :
    x.hasDog dog := by
  unfold mark at h
  split at h
  · rename_i hA
    exact .inl hA.symm
  · split at h
    · rename_i hB
      exact .inr hB.symm
    · cases h

theorem setMediaReady_confined (s : SessionStore) (i : SessionId) (dog : DogId) (ready : Bool) (id : SessionId) :
    SessionConfined dog (s.under id) ((s.setMediaReady i dog ready).2.under id) := by
  rcases setMediaReady_cases s i dog ready with ⟨hc, -⟩ | ⟨x, e, e', s', hx, -, hmark, hc, -, hmedia, hget⟩
  · rw [hc]
    exact .inl rfl
  · rw [hc]
    refine .touched (i := i) (fun hk => ?_) (fun y hy => ?_) (fun y hy => ?_) id
    · unfold under
      rw [hget, if_neg hk, hmedia, HashMap.lookup_insert, if_neg hk]
    · rw [hget, if_pos rfl] at hy
      cases hy
      unfold SessionRecord.hasDog
      rw [promote_dogA, promote_dogB]
      exact hasDog_of_mark hmark
    · cases hx.symm.trans hy
      exact hasDog_of_mark hmark

end SessionStore

/-- **The sessions after a request** that names `d`. -/
theorem Handled.sessions_confined (hh : Handled st κ n u w r l) (hu : w.Undrawn) (hn : r.names st = some (t, d))
    (id : SessionId) : SessionConfined d (w.data.sessions.under id) (l.sessions.under id) := by
  cases hh with
  | rang => rw [Ledger.save_sessions]; exact .inl rfl
  | cancelled => rw [Ledger.save_sessions]; exact .inl rfl
  | began through begins drawn inserted =>
    rw [Ledger.save_sessions, Ledger.save_sessions]
    obtain ⟨hcaller, -, -, hto⟩ := acceptThrough_some through
    obtain rfl := JsonBody.names_dog (jsonCaller_some hcaller) hn
    exact SessionStore.insert_confined inserted (hu _ drawn.1).2 (.inr (begins.dogB.trans hto)) id
  | @marked h i b dog both x s caller set =>
    rw [Ledger.save_sessions]
    obtain rfl := JsonBody.names_dog (jsonCaller_some caller) hn
    have hconfined := SessionStore.setMediaReady_confined w.data.sessions ⟨i⟩ dog (b.ready.getD true) id
    rw [set] at hconfined
    exact hconfined
  | renewed caller found party extended =>
    rw [Ledger.save_sessions]
    obtain rfl := JsonBody.names_dog (jsonCaller_some caller) hn
    exact SessionStore.update_confined found party party id
  | ended found party =>
    cases hn
    unfold Ledger.endSession
    rw [Ledger.save_sessions]
    exact SessionStore.endSession_confined found party id
  | aside => exact .inl rfl
  | swept => exact .inl rfl
  | clashed => exact .inl rfl
  | _ => cases hn

end

/-! ## Over every route -/

namespace Server

variable {st : AppState}

theorem serve_undrawn {s : Server} (a : Arrival) (h : s.world.Undrawn) : (s.serve st a).world.Undrawn := by
  have hh := serve_handled st s a
  have hmono : s.world.nextUuid ≤ (s.serve st a).world.nextUuid :=
    serve_inv (I := fun w => s.world.nextUuid ≤ w.nextUuid) (fun c _ t w hw => Nat.le_trans hw (nextUuid_mono c))
      (Nat.le_refl _)
  intro u hu
  constructor
  · cases hget : (s.serve st a).world.data.invites.get ⟨u⟩ with
    | none => rfl
    | some inv =>
      rcases hh.invite hget with hold | ⟨-, -, -, -, -, -, hdrawn⟩
      · exact hold.symm.trans (h u (Nat.le_trans hmono hu)).1
      · exact absurd hdrawn (Nat.not_lt.2 hu)
  · cases hget : (s.serve st a).world.data.sessions.get ⟨u⟩ with
    | none => rfl
    | some x =>
      rcases hh.session hget with ⟨y, hold, -⟩ | ⟨-, -, -, -, -, -, -, -, -, hdrawn⟩
      · exact absurd (hold.symm.trans (h u (Nat.le_trans hmono hu)).2) nofun
      · exact absurd hdrawn (Nat.not_lt.2 hu)

/-- **Every world of a run from empty stores** has its ids drawn. -/
theorem serveAll_undrawn (as : List Arrival) {s : Server} (h : s.world.Undrawn) : (s.serveAll st as).world.Undrawn := by
  induction as generalizing s with
  | nil => exact h
  | cons a as ih => exact ih (serve_undrawn a h)

end Server

theorem undrawn_empty {w : World} (h : w.data = {}) : w.Undrawn := by
  intro u _
  rw [h]
  exact ⟨rfl, rfl⟩

section

variable {st : AppState} {κ : Nat → DateTime} {w : World}

theorem Confined.same {n : Nat} {d : DogId} {a a' : AppData} (h : a' = a) : Confined κ n d a a' := by
  subst h
  exact ⟨fun _ => .inl rfl, fun _ => .inl rfl, fun _ _ => rfl, fun _ _ => rfl⟩

theorem Route.deviceWs_data (h : HeaderMap) (q : WsQuery) : ((Route.deviceWs h q).serve st κ w).data = w.data := by
  unfold Route.serve
  dsimp only
  split <;> rfl

/-- The report that a request which names `d` leaves is one of `d`. -/
theorem reportOf_names {r : Request} {t : TerminalId} {d : DogId} (hn : r.names st = some (t, d)) {rep : PresenceReport}
    (h : reportOf st ⟨r, κ⟩ = some rep) : rep.dogId = d := by
  cases r with
  | postPresence hdr rep' =>
    cases hn
    have h : (if (verifyDevice st hdr rep'.terminalId rep'.dogId).isOk then some rep' else none) = some rep := h
    split at h
    · cases h
      rfl
    · cases h
  | _ => cases h

/-- **A request with the token of `d`** is confined to `d`. -/
theorem confined_of_names (hu : w.Undrawn) {r : Request} (hr : (Route.api r).forDevices = true) {t : TerminalId}
    {d : DogId} (hn : r.names st = some (t, d)) :
    Confined κ ((handle st r).steps (exec st) κ w) d w.data ((handle st r).eval (exec st) κ w).2.data := by
  have hh := Server.serve_handled st ⟨w, κ 0⟩ ⟨r, κ⟩
  refine ⟨fun id => hh.invites_confined hu hn id, fun id => hh.sessions_confined hu hn id, fun d' hd' => ?_,
    fun d' _ => ?_⟩
  · have hpresence := @serve_presence st ⟨w, κ 0⟩ ⟨r, κ⟩
    have hpresence : ((handle st r).eval (exec st) κ w).2.data.presence = _ := hpresence
    rw [hpresence]
    cases hrep : reportOf st ⟨r, κ⟩ with
    | none => rfl
    | some rep =>
      refine (PresenceStore.lookup_upsert _ rep d').trans (if_neg ?_)
      rw [reportOf_names hn hrep]
      exact hd'
  · have hedits : r.editsPolicy = false := by
      cases r with
      | stewardEstop => cases hr
      | stewardSocial => cases hr
      | stewardPolicy => cases hr
      | _ => rfl
    exact congrFun (hh.policies_eq hedits) d'

end

/-- **Credentials confine what a request touches**, on every route outside `/v1/dev` and `/v1/steward` and from every
state: without the token of the terminal and the dog it names, a request leaves `AppData`; with it, it is confined. -/
theorem credentials_confine (st : AppState) (w : World) (hu : w.Undrawn) (r : Route) (hr : r.forDevices = true)
    (κ : Nat → DateTime) :
    ((¬ ∃ t d, r.Carries st t d) → (r.serve st κ w).data = w.data) ∧
      ∀ t d, r.Carries st t d → Confined κ (r.steps st κ w) d w.data (r.serve st κ w).data := by
  cases r with
  | page => exact ⟨fun _ => rfl, fun _ _ _ => .same rfl⟩
  | deviceWs h q => exact ⟨fun _ => Route.deviceWs_data h q, fun _ _ _ => .same (Route.deviceWs_data h q)⟩
  | api r =>
    refine ⟨fun hnot => ?_, fun t d hc => confined_of_names hu hr hc.1⟩
    rcases carries_or_reads hr with (⟨answer, hdone⟩ | hcarries) | hreads
    · show ((handle st r).eval (exec st) κ w).2.data = w.data
      rw [hdone]
      rfl
    · exact absurd hcarries hnot
    · exact congrArg World.data (hreads κ w)

/-- Dog 1 cancels the invite that rings. -/
theorem credentials_confine_cancel : Confined (fun _ => noon)
    ((Route.api (.cancelInvite (device 1) 0 (jsonBody 1))).steps bench (fun _ => noon) ringing) ⟨1⟩ ringing.data
    ((Route.api (.cancelInvite (device 1) 0 (jsonBody 1))).serve bench (fun _ => noon) ringing).data :=
  (credentials_confine bench ringing (Server.serveAll_undrawn _ (undrawn_empty rfl))
    (.api (.cancelInvite (device 1) 0 (jsonBody 1))) rfl (fun _ => noon)).2 ⟨1⟩ ⟨1⟩
    ⟨by decide +kernel, by decide +kernel⟩

end CanisLink
