import CanisLink.Identity
import CanisLink.Routing
/-!
# Consent — how two dogs come into contact

An invite in the store was put in by a request with the credentials of its caller, which read the clock and then found,
at that time, caller and callee present and allowed contact, and the two bonded both ways.  A session in the store was
put in by a request with the credentials of its callee, which read the clock, found the callee present and allowed at
that time, and read such an invite, still ringing.  This holds of every interleaving of any requests; what the answers
said at the calls may be past by the time they are used.
-/
namespace CanisLink

open Interleave (Prog Pool Step own)
open Api

/-! ## What a handler has been told -/

/-- The calls of program `i` by which the invite `inv` was asked for, `preferred` being the dog that was asked for and
`now` what the clock answered to the first of them. -/
structure CallPast (i : Nat) (preferred : Option DogId) (now : DateTime) (h : List ApiStep) (inv : Invite) : Prop where
  began : ∃ t, h.head? = some ⟨i, t, .utcNow, now⟩
  allowed : ∀ d, d = inv.fromDog ∨ d = inv.toDog →
    ∃ t pol, (⟨i, t, .policiesEnsure d, pol⟩ : ApiStep) ∈ h ∧ socialAllowed pol now = .ok ()
  routed : ∃ t present caller,
    (⟨i, t, .routeInvite inv.fromDog preferred present caller, .ok inv.toDog⟩ : ApiStep) ∈ h ∧
    (∃ t', (⟨i, t', .presentDogIds now, present⟩ : ApiStep) ∈ h) ∧
    ∃ t', (⟨i, t', .isPresent inv.fromDog now, caller⟩ : ApiStep) ∈ h

/-- The session `x` is over the invite, which was ringing when it began. -/
structure SessionRecord.Over (x : SessionRecord) (inv : Invite) : Prop where
  inviteId : x.inviteId = inv.id
  dogA : x.dogA = inv.fromDog
  dogB : x.dogB = inv.toDog
  ringing : inv.state = .ringing
  unexpired : x.startedAt < inv.expiresAt

/-- The calls of program `i` by which the invite `inv` was taken up under the name `n`, `now` being what the clock
answered to the first of them. -/
structure AcceptedPast (i : Nat) (n : Uuid) (now : DateTime) (h : List ApiStep) (inv : Invite) : Prop where
  began : ∃ t, h.head? = some ⟨i, t, .utcNow, now⟩
  allowed : ∃ t pol, (⟨i, t, .policiesEnsure inv.toDog, pol⟩ : ApiStep) ∈ h ∧ socialAllowed pol now = .ok ()
  present : ∃ t, (⟨i, t, .isPresent inv.toDog now, true⟩ : ApiStep) ∈ h
  found : ∃ t, (⟨i, t, .invitesGet ⟨n⟩, some inv⟩ : ApiStep) ∈ h

/-- The session that a step left in the store. -/
def leftBy : ApiStep → Option SessionRecord
  | ⟨_, _, .sessionsInsert x, .ok ()⟩ => some x
  | ⟨_, _, .sessionsUpdate _ _, found⟩ => found
  | ⟨_, _, .setMediaReady _ _ _, told⟩ => told.map (·.2)
  | _ => none

/-- Who may put in an invite or a session, and after what calls; what is written to disk was put in first. -/
def ConsentNext (st : AppState) (r : Request) (i : Nat) (h : List ApiStep) : Call → Prop
  | .invitesInsert inv => ∃ hd b, r = .createInvite hd b ∧ verifyDevice st hd b.terminalId b.dogId = .ok () ∧
      b.dogId = inv.fromDog ∧ ∃ now, CallPast i b.toDog now h inv
  | .sessionsInsert x => ∃ hd n b inv, r = .acceptInvite hd n b ∧ jsonCaller st hd b = some inv.toDog ∧ x.Over inv ∧
      AcceptedPast i n x.startedAt h inv
  | .sql (.saveInvite inv) => ∃ t, (⟨i, t, .invitesInsert inv, .ok ()⟩ : ApiStep) ∈ h
  | .sql (.saveSession x _ _) => ∃ e ∈ h, leftBy e = some x
  | _ => True

def AnyEnd (_ : List ApiStep) (_ : Reply) : Prop := True

/-- The first call stays the first. -/
theorem head?_of_prefix {α : Type} {h h' : List α} {e : α} (hle : h <+: h') (he : h.head? = some e) :
    h'.head? = some e := by
  obtain ⟨rest, rfl⟩ := hle
  rw [List.head?_append, he]
  rfl

section

variable {i : Nat} {now : DateTime} {h h' : List ApiStep} {inv : Invite}

theorem CallPast.mono {preferred : Option DogId} (hp : CallPast i preferred now h inv) (hle : h <+: h') :
    CallPast i preferred now h' inv where
  began := by
    obtain ⟨t, hfirst⟩ := hp.began
    exact ⟨t, head?_of_prefix hle hfirst⟩
  allowed d hd := by
    obtain ⟨t, pol, hm, hok⟩ := hp.allowed d hd
    exact ⟨t, pol, hle.subset hm, hok⟩
  routed := by
    obtain ⟨t, present, caller, hm, ⟨t', hm'⟩, t'', hm''⟩ := hp.routed
    exact ⟨t, present, caller, hle.subset hm, ⟨t', hle.subset hm'⟩, t'', hle.subset hm''⟩

theorem AcceptedPast.mono {n : Uuid} (hp : AcceptedPast i n now h inv) (hle : h <+: h') :
    AcceptedPast i n now h' inv where
  began := by
    obtain ⟨t, hfirst⟩ := hp.began
    exact ⟨t, head?_of_prefix hle hfirst⟩
  allowed := by
    obtain ⟨t, pol, hm, hok⟩ := hp.allowed
    exact ⟨t, pol, hle.subset hm, hok⟩
  present := by
    obtain ⟨t, hm⟩ := hp.present
    exact ⟨t, hle.subset hm⟩
  found := by
    obtain ⟨t, hm⟩ := hp.found
    exact ⟨t, hle.subset hm⟩

end

section

variable (st : AppState) (r : Request) (i : Nat)

/-- Asking whether a dog is busy adds to the past. -/
theorem busy_consents (d : DogId) (h : List ApiStep) :
    (busy d).Along i (ConsentNext st r i) (fun h' _ => h <+: h') h := by
  refine ⟨trivial, fun t found => ?_⟩
  cases found with
  | some inv => exact List.prefix_append _ _
  | none =>
    refine ⟨trivial, fun t' session => ?_⟩
    exact (List.prefix_append _ _).trans (List.prefix_append _ _)

theorem publishMany_consents (ev : DeviceEvent) : ∀ (ds : List DogId) (h : List ApiStep),
    (publishMany ds ev).Along i (ConsentNext st r i) (fun _ _ => True) h
  | [], _ => trivial
  | _ :: ds, _ => ⟨trivial, fun _ _ => publishMany_consents ev ds _⟩

theorem createInvite_consents (hd : HeaderMap) (b : CreateInviteBody) :
    (createInvite st hd b).Along i (ConsentNext st (.createInvite hd b) i) AnyEnd [] := by
  unfold createInvite
  simp only [utcNow, expireDue, policiesGet, policiesEnsure, invitesLastHour, presentDogIds, isPresent, Api.routeInvite,
    newUuid, invitesInsert, recordInvite, sql, publish, Prog.op_bind, Prog.pure_eq]
  cases hv : verifyDevice st hd b.terminalId b.dogId with
  | error s => trivial
  | ok u =>
  refine ⟨trivial, fun t₁ now => ⟨trivial, fun t₂ _ => ⟨trivial, fun t₃ pol => ?_⟩⟩⟩
  dsimp only
  cases hpol : socialAllowed pol now with
  | error e => trivial
  | ok u =>
  refine ⟨trivial, fun t₄ count => ?_⟩
  dsimp only
  cases inviteRateOk count pol.maxInvitesPerHour with
  | error e => trivial
  | ok u =>
  refine Prog.Along.bind (fun hist callerBusy hle => ?_) (busy_consents st _ i b.dogId _)
  cases callerBusy with
  | true => trivial
  | false =>
  refine ⟨trivial, fun t₅ present => ⟨trivial, fun t₆ caller => ⟨trivial, fun t₇ routed => ?_⟩⟩⟩
  cases routed with
  | error e => trivial
  | ok peer =>
  refine ⟨trivial, fun t₈ peerPol => ?_⟩
  dsimp only
  cases hpeer : socialAllowed peerPol now with
  | error e => trivial
  | ok u =>
  refine Prog.Along.bind (fun hist' peerBusy hle' => ?_) (busy_consents st _ i peer _)
  cases peerBusy with
  | true => trivial
  | false =>
  refine ⟨trivial, fun t₉ created => ⟨trivial, fun t₁₀ id => ?_⟩⟩
  dsimp only
  cases hnew : newInvite ⟨id⟩ created b.dogId peer b.mode with
  | none => trivial
  | some invite =>
  obtain ⟨-, hfrom, hto, -⟩ := newInvite_ok hnew
  refine ⟨⟨hd, b, rfl, hv, hfrom.symm, now, ?_⟩, fun t₁₁ inserted => ?_⟩
  · -- what the handler was told before it asks whether the callee is busy
    refine CallPast.mono (CallPast.mono ⟨⟨t₁, ?_⟩, fun d hdog => ?_, ?_⟩ hle')
      ((List.prefix_append _ _).trans (List.prefix_append _ _))
    · simp only [List.append_assoc]
      exact head?_of_prefix (hle.trans (List.prefix_append _ _)) rfl
    · rw [hfrom, hto] at hdog
      rcases hdog with rfl | rfl
      · have hmem : (⟨i, t₃, .policiesEnsure b.dogId, pol⟩ : ApiStep) ∈ hist := hle.subset (by simp)
        exact ⟨t₃, pol, by simp [hmem], hpol⟩
      · exact ⟨t₈, peerPol, by simp, hpeer⟩
    · rw [hfrom, hto]
      exact ⟨t₇, present, caller, by simp, ⟨t₅, by simp⟩, t₆, by simp⟩
  · cases inserted with
    | error e => trivial
    | ok u =>
    refine ⟨trivial, fun _ _ => ?_⟩
    cases st.pool with
    | false => exact ⟨trivial, fun _ _ => trivial⟩
    | true => exact ⟨⟨t₁₁, by simp⟩, fun _ _ => ⟨trivial, fun _ _ => ⟨trivial, fun _ _ => trivial⟩⟩⟩

theorem acceptInvite_consents (hd : HeaderMap) (n : Uuid) (b : JsonBody) :
    (acceptInviteHandler st hd n b).Along i (ConsentNext st (.acceptInvite hd n b) i) AnyEnd [] := by
  unfold acceptInviteHandler
  simp only [utcNow, expireDue, policiesGet, policiesEnsure, invitesGet, isPresent, newUuid, invitesClose,
    sessionsInsert, sql, Prog.op_bind, Prog.pure_eq]
  cases hdog : st.formats.parseUuid b.dogId with
  | none => trivial
  | some dog =>
  cases hterminal : st.formats.parseUuid b.terminalId with
  | none => trivial
  | some terminal =>
  dsimp only
  cases hv : verifyDevice st hd ⟨terminal⟩ ⟨dog⟩ with
  | error s => trivial
  | ok u =>
  refine ⟨trivial, fun t₁ now => ⟨trivial, fun t₂ pol => ?_⟩⟩
  dsimp only
  cases hpol : socialAllowed pol now with
  | error e => trivial
  | ok u =>
  refine ⟨trivial, fun t₃ _ => ⟨trivial, fun t₄ found => ?_⟩⟩
  cases found with
  | none => trivial
  | some inv =>
  refine ⟨trivial, fun t₅ present => ⟨trivial, fun t₆ sessionId => ?_⟩⟩
  dsimp only
  cases ha : acceptInvite ⟨sessionId⟩ inv ⟨dog⟩ present now with
  | none => trivial
  | some checked =>
  cases checked with
  | error e => trivial
  | ok session =>
  dsimp only
  cases (seconds (asI64 pol.maxSessionSec)).bind now.plus with
  | none => trivial
  | some maxEndAt =>
  cases (seconds (asI64 pol.segmentSec)).bind now.plus with
  | none => trivial
  | some segmentDeadlineAt =>
  obtain ⟨hcheck, -, hinv, hA, hB, hstart⟩ := acceptInvite_ok ha
  obtain ⟨hto, hringing, hopen, hpresent⟩ := acceptCheck_ok hcheck
  subst hpresent
  refine ⟨trivial, fun t₇ closed => ⟨⟨hd, n, b, inv, rfl, ?_, ?_, ?_⟩, fun t₈ inserted => ?_⟩⟩
  · rw [hto, jsonCaller, hdog, hterminal]
    simp [hv, Except.isOk, Except.toBool]
  · exact ⟨hinv, hA, hB, hringing, hstart.symm ▸ hopen⟩
  · show AcceptedPast i n session.startedAt _ inv
    rw [hstart]
    refine ⟨⟨t₁, rfl⟩, ⟨t₂, pol, ?_, hpol⟩, ⟨t₅, ?_⟩, t₄, by simp⟩
    · rw [hto]
      simp
    · rw [hto]
      simp
  · cases inserted with
    | error e => trivial
    | ok u =>
    cases st.pool with
    | false =>
      refine Prog.Along.bind (fun _ _ _ => ?_) (publishMany_consents st _ i _ _ _)
      trivial
    | true =>
      refine ⟨trivial, fun _ _ => ⟨⟨⟨i, t₈, .sessionsInsert
        { session with state := .negotiating, maxEndAt, segmentDeadlineAt }, .ok ()⟩, by simp, rfl⟩, fun _ _ =>
        Prog.Along.bind (fun _ _ _ => ?_) (publishMany_consents st _ i _ _ _)⟩⟩
      trivial

theorem mediaReady_consents (hd : HeaderMap) (n : Uuid) (b : JsonBody) :
    (mediaReady st hd n b).Along i (ConsentNext st r i) AnyEnd [] := by
  unfold mediaReady
  simp only [setMediaReady, sql, Prog.op_bind, Prog.pure_eq]
  cases st.formats.parseUuid b.dogId with
  | none => trivial
  | some dog =>
  cases st.formats.parseUuid b.terminalId with
  | none => trivial
  | some terminal =>
  dsimp only
  cases verifyDevice st hd ⟨terminal⟩ ⟨dog⟩ with
  | error s => trivial
  | ok u =>
  refine ⟨trivial, fun t told => ?_⟩
  cases told with
  | none => trivial
  | some found =>
  cases st.pool with
  | false => trivial
  | true => exact ⟨⟨⟨i, t, .setMediaReady ⟨n⟩ ⟨dog⟩ (b.ready.getD true), some found⟩, by simp, rfl⟩, fun _ _ => trivial⟩

theorem again_consents (hd : HeaderMap) (n : Uuid) (b : JsonBody) :
    (again st hd n b).Along i (ConsentNext st r i) AnyEnd [] := by
  unfold again
  simp only [utcNow, policiesGet, policiesEnsure, sessionsGet, sessionsUpdate, sql, Prog.op_bind, Prog.pure_eq]
  cases st.formats.parseUuid b.dogId with
  | none => trivial
  | some dog =>
  cases st.formats.parseUuid b.terminalId with
  | none => trivial
  | some terminal =>
  dsimp only
  cases verifyDevice st hd ⟨terminal⟩ ⟨dog⟩ with
  | error s => trivial
  | ok u =>
  refine ⟨trivial, fun _ found => ?_⟩
  cases found with
  | none => trivial
  | some sess =>
  dsimp only
  split
  · trivial
  · refine ⟨trivial, fun _ pol => ⟨trivial, fun _ now => ?_⟩⟩
    dsimp only
    cases extendSegment now pol.segmentSec sess.maxEndAt with
    | none => trivial
    | some deadline =>
    refine ⟨trivial, fun t updated => ?_⟩
    cases updated with
    | none => trivial
    | some session =>
    cases st.pool with
    | false => trivial
    | true =>
      exact ⟨⟨⟨i, t, .sessionsUpdate ⟨n⟩ (fun s => { s with segmentDeadlineAt := deadline }), some session⟩, by simp,
        rfl⟩, fun _ _ => trivial⟩

/-- **Every handler asks before it puts two dogs in touch.** -/
theorem handle_consents : (handle st r).Along i (fun h c => r.makes c ∧ ConsentNext st r i h c) AnyEnd [] := by
  refine (handle_makes st r).and_along ?_
  have hother : ∀ {r : Request}, r.isCreate = false → r.isAccept = false → r.isMediaReady = false →
      r.isAgain = false → (handle st r).Along i (ConsentNext st r i) AnyEnd [] := by
    intro r hc ha hm hg
    refine (handle_makes st r).along_calls (fun h c hmakes => ?_) (fun _ _ => trivial)
    cases c with
    | invitesInsert inv => exact absurd hmakes (by simp [Request.makes, hc])
    | sessionsInsert x => exact absurd hmakes (by simp [Request.makes, ha])
    | sql q =>
      cases q with
      | saveInvite inv => exact absurd hmakes (by simp [Request.makes, Request.writes, hc])
      | saveSession x ma mb => exact absurd hmakes (by simp [Request.makes, Request.writes, ha, hm, hg])
      | _ => trivial
    | _ => trivial
  cases r with
  | createInvite hd b => exact createInvite_consents st i hd b
  | acceptInvite hd n b => exact acceptInvite_consents st i hd n b
  | mediaReady hd n b => exact mediaReady_consents st _ i hd n b
  | again hd n b => exact again_consents st _ i hd n b
  | _ => exact hother rfl rfl rfl rfl

end

/-! ## What the log accounts for -/

/-- The request that asked for an invite, what it was told, and that it put the invite in. -/
def AskedFor (st : AppState) (reqs : List Request) (log : List ApiStep) (inv : Invite) : Prop :=
  ∃ i hd b now, reqs[i]? = some (.createInvite hd b) ∧ verifyDevice st hd b.terminalId b.dogId = .ok () ∧
    b.dogId = inv.fromDog ∧ CallPast i b.toDog now (own i log) inv ∧
    ∃ t, (⟨i, t, .invitesInsert inv, .ok ()⟩ : ApiStep) ∈ log

/-- The request that took up an invite, what it was told, and that it put in the session `y`. -/
def TookUp (st : AppState) (reqs : List Request) (log : List ApiStep) (inv : Invite) (y : SessionRecord) : Prop :=
  ∃ i hd b, reqs[i]? = some (.acceptInvite hd inv.id.uuid b) ∧ jsonCaller st hd b = some inv.toDog ∧
    AcceptedPast i inv.id.uuid y.startedAt (own i log) inv ∧ y.Over inv ∧
    ∃ t, (⟨i, t, .sessionsInsert y, .ok ()⟩ : ApiStep) ∈ log

/-- The session is one that a request put in, over an invite that was asked for before (`P`) or since. -/
def Begun (st : AppState) (P : Invite → Prop) (reqs : List Request) (log : List ApiStep) (x : SessionRecord) : Prop :=
  ∃ inv y, (P inv ∨ AskedFor st reqs log inv) ∧ TookUp st reqs log inv y ∧ x.Kin y

/-- The state and the log of a run of `reqs`; `P` and `Q` hold of the invites and the sessions of before. -/
structure Consenting (st : AppState) (P : Invite → Prop) (Q : SessionRecord → Prop) (reqs : List Request)
    (p : ApiPool) : Prop where
  consistent : p.state.Consistent
  invites : ∀ {k inv}, p.state.data.invites.get k = some inv → P inv ∨ AskedFor st reqs p.log inv
  read : ∀ {i t id inv}, (⟨i, t, .invitesGet id, some inv⟩ : ApiStep) ∈ p.log →
    inv.id = id ∧ (P inv ∨ AskedFor st reqs p.log inv)
  sessions : ∀ {k x}, p.state.data.sessions.get k = some x → Q x ∨ Begun st P reqs p.log x

section

variable {st : AppState} {P : Invite → Prop} {Q : SessionRecord → Prop} {reqs : List Request}
  {log log' : List ApiStep} {inv : Invite} {x y : SessionRecord}

theorem AskedFor.mono (h : AskedFor st reqs log inv) (hle : log <+: log') : AskedFor st reqs log' inv := by
  obtain ⟨i, hd, b, now, hr, hv, hdog, hpast, t, hput⟩ := h
  exact ⟨i, hd, b, now, hr, hv, hdog, hpast.mono (hle.filter _), t, hle.subset hput⟩

theorem TookUp.mono (h : TookUp st reqs log inv y) (hle : log <+: log') : TookUp st reqs log' inv y := by
  obtain ⟨i, hd, b, hr, hcaller, hpast, hover, t, hput⟩ := h
  exact ⟨i, hd, b, hr, hcaller, hpast.mono (hle.filter _), hover, t, hle.subset hput⟩

theorem Begun.mono (h : Begun st P reqs log x) (hle : log <+: log') : Begun st P reqs log' x := by
  obtain ⟨inv, y, hasked, htook, hkin⟩ := h
  exact ⟨inv, y, hasked.imp_right (·.mono hle), htook.mono hle, hkin⟩

/-- Where the handlers of `reqs` may be. -/
def ConsentsNext (st : AppState) (reqs : List Request) (i : Nat) (h : List ApiStep) (c : Call) : Prop :=
  ∃ r, reqs[i]? = some r ∧ r.makes c ∧ ConsentNext st r i h c

theorem requests_consent (st : AppState) (reqs : List Request) (w : World) :
    (Pool.start w (reqs.map (handle st)) : ApiPool).Follows (ConsentsNext st reqs) (fun _ => AnyEnd) := by
  refine Pool.follows_start (fun i r hr => ?_)
  exact (handle_consents st r i).mono (fun h c hc => ⟨r, hr, hc⟩) (fun _ _ _ => trivial)

/-- **A call keeps the log accounting for every invite and every session.** -/
theorem consenting_step (hQ : ∀ {x y}, x.Kin y → Q y → Q x) {p : ApiPool} (hJ : Consenting st P Q reqs p) {i : Nat}
    {t : DateTime} {c : Call} (k : c.Resp → Prog Call.Resp Reply) (hq : ConsentsNext st reqs i (own i p.log) c) :
    Consenting st P Q reqs ⟨(exec st t c p.state).2, p.threads.set i (k (exec st t c p.state).1),
      p.log ++ [⟨i, t, c, (exec st t c p.state).1⟩]⟩ := by
  obtain ⟨r, hr, hm, hnext⟩ := hq
  have hgrow : p.log <+: p.log ++ [⟨i, t, c, (exec st t c p.state).1⟩] := List.prefix_append _ _
  have hlast : (⟨i, t, c, (exec st t c p.state).1⟩ : ApiStep) ∈ p.log ++ [⟨i, t, c, (exec st t c p.state).1⟩] :=
    List.mem_append_right _ (List.mem_singleton_self _)
  refine ⟨exec_consistent st t (Request.makes_keepsParties hm) hJ.consistent, ?_, ?_, ?_⟩
  · intro key inv hinv
    rcases invites_after st t p.state hinv with hold | ⟨hopened, -⟩
    · exact (hJ.invites hold).imp_right (·.mono hgrow)
    · cases c with
      | invitesInsert inv' =>
        obtain ⟨hd, b, rfl, hv, hdog, now, hpast⟩ := hnext
        cases hresp : (exec st t (.invitesInsert inv') p.state).1 with
        | error e =>
          rw [hresp] at hopened
          cases hopened
        | ok u =>
          rw [hresp] at hopened
          obtain rfl : inv' = inv := Option.some.inj hopened
          rw [hresp] at hlast hgrow
          exact .inr ⟨i, hd, b, now, hr, hv, hdog, hpast.mono (hgrow.filter _), t, hlast⟩
      | _ => cases hopened
  · intro j t' id inv hmem
    rcases List.mem_append.1 hmem with hmem | hmem
    · obtain ⟨hid, hasked⟩ := hJ.read hmem
      exact ⟨hid, hasked.imp_right (·.mono hgrow)⟩
    · cases c with
      | invitesGet id' =>
        obtain ⟨-, -, hcmd, hresp⟩ := Step.mk.inj (List.mem_singleton.1 hmem)
        cases hcmd
        have hget : p.state.data.invites.get id = some inv := (eq_of_heq hresp).symm
        exact ⟨hJ.consistent.invites.keyed hget, (hJ.invites hget).imp_right (·.mono hgrow)⟩
      | _ => cases List.mem_singleton.1 hmem
  · intro key x hx
    rcases sessions_kin hm hx with ⟨y, hy, hkin⟩ | ⟨rfl, -⟩
    · refine (hJ.sessions hy).imp (hQ hkin) (fun h => ?_)
      obtain ⟨inv, z, hasked, htook, hkin'⟩ := h.mono hgrow
      exact ⟨inv, z, hasked, htook, hkin.trans hkin'⟩
    · obtain ⟨hd, n, b, inv, rfl, hcaller, hover, hpast⟩ := hnext
      obtain ⟨t', hfound⟩ := hpast.found
      obtain ⟨hid, hasked⟩ := hJ.read (Interleave.mem_own.1 hfound).1
      obtain rfl : inv.id.uuid = n := congrArg InviteId.uuid hid
      cases hs : p.state.data.sessions.insert x with
      | error e =>
        have hsame : (exec st t (.sessionsInsert x) p.state).2 = p.state := by simp only [exec, hs]
        rw [hsame] at hx
        exact (hJ.sessions hx).imp_right (·.mono hgrow)
      | ok s =>
        have hok : (exec st t (.sessionsInsert x) p.state).1 = .ok () := by simp only [exec, hs]
        rw [hok] at hlast hgrow ⊢
        exact .inr ⟨inv, x, hasked.imp_right (·.mono hgrow),
          ⟨i, hd, b, hr, hcaller, hpast.mono (hgrow.filter _), hover, t, hlast⟩, .refl x⟩

theorem consenting_start {w : World} (hw : w.Consistent) (hinvites : ∀ {k inv}, w.data.invites.get k = some inv → P inv)
    (hsessions : ∀ {k x}, w.data.sessions.get k = some x → Q x) :
    Consenting st P Q reqs (Pool.start w (reqs.map (handle st)) : ApiPool) :=
  ⟨hw, fun h => .inl (hinvites h), fun hmem => absurd hmem List.not_mem_nil, fun h => .inl (hsessions h)⟩

/-- Starting with no invites and no sessions, nothing is accounted for by what was before. -/
theorem consenting_run {w : World} (hw : w.data = {}) (sched : List (Nat × DateTime)) :
    Consenting st (fun _ => False) (fun _ => False) reqs (reached st w reqs sched) := by
  have h0 : Consenting st (fun _ => False) (fun _ => False) reqs (Pool.start w (reqs.map (handle st)) : ApiPool) := by
    refine consenting_start ⟨by rw [hw]; exact .empty, by rw [hw]; exact .empty⟩ ?_ ?_
    · intro k inv h
      rw [hw] at h
      cases h
    · intro k x h
      rw [hw] at h
      cases h
  have hany : (Pool.start w (reqs.map (handle st)) : ApiPool).Meets (exec st) (fun _ _ => True) sched :=
    Pool.meets_iff.2 (fun _ _ _ => trivial)
  exact (Pool.run_inv (fun _ _ _ _ k hJ _ _ hq _ => consenting_step (fun _ h => h) hJ k hq) sched _
    (requests_consent st reqs w) h0 hany).2

end

/-! ## At the moments of a run -/

/-- Request `i` makes the call `c` at the moment `before` of the run: the state it finds is the one reached then. -/
structure CallAt (st : AppState) (w : World) (reqs : List Request) (sched : List (Nat × DateTime)) (i : Nat) (c : Call)
    (before : List (Nat × DateTime)) : Prop where
  taken : ∃ t, before ++ [(i, t)] <+: sched
  next : (reached st w reqs before).next i = some c

/-- **The invite was sent by request `i`**, which came with the credentials of its caller.  The clock showed `now` at
the first step of the request; in the states in which it made its calls, each dog's policy allowed contact at `now`,
each dog was present at `now`, and the two were bonded both ways; then it put in this invite. -/
structure SentBy (st : AppState) (w : World) (reqs : List Request) (sched : List (Nat × DateTime)) (i : Nat)
    (now : DateTime) (inv : Invite) : Prop where
  caller : ∃ hd body, reqs[i]? = some (.createInvite hd body) ∧
    verifyDevice st hd body.terminalId body.dogId = .ok () ∧ body.dogId = inv.fromDog
  began : sched.lookup i = some now
  allowed : ∀ d, d = inv.fromDog ∨ d = inv.toDog → ∃ before, CallAt st w reqs sched i (.policiesEnsure d) before ∧
    socialAllowed ((reached st w reqs before).state.data.policies.current d) now = .ok ()
  callerPresent : ∃ before, CallAt st w reqs sched i (.isPresent inv.fromDog now) before ∧
    (reached st w reqs before).state.data.presence.isPresent inv.fromDog now = true
  calleePresent : ∃ before, CallAt st w reqs sched i (.presentDogIds now) before ∧
    (reached st w reqs before).state.data.presence.isPresent inv.toDog now = true
  bonded : ∃ before preferred present caller,
    CallAt st w reqs sched i (.routeInvite inv.fromDog preferred present caller) before ∧
    (reached st w reqs before).state.data.bonds.mutualEligible inv.fromDog inv.toDog = true
  inserted : ∃ before s, CallAt st w reqs sched i (.invitesInsert inv) before ∧
    (reached st w reqs before).state.data.invites.insert inv = .ok s

/-- Some request sent the invite. -/
def Sent (st : AppState) (w : World) (reqs : List Request) (sched : List (Nat × DateTime)) (inv : Invite) : Prop :=
  ∃ i now, SentBy st w reqs sched i now inv

/-- **The invite was taken up by request `i`**, which came with the credentials of its callee.  The clock showed at the
first step of the request what the session has for its start; in the states in which it made its calls, the callee's
policy allowed contact at that time, the callee was present at that time, and the invite was in the store, ringing and
not expired; then it put in the session `y` over this invite. -/
structure TakenUpBy (st : AppState) (w : World) (reqs : List Request) (sched : List (Nat × DateTime)) (i : Nat)
    (inv : Invite) (y : SessionRecord) : Prop where
  callee : ∃ hd body, reqs[i]? = some (.acceptInvite hd inv.id.uuid body) ∧ jsonCaller st hd body = some inv.toDog
  began : sched.lookup i = some y.startedAt
  allowed : ∃ before, CallAt st w reqs sched i (.policiesEnsure inv.toDog) before ∧
    socialAllowed ((reached st w reqs before).state.data.policies.current inv.toDog) y.startedAt = .ok ()
  present : ∃ before, CallAt st w reqs sched i (.isPresent inv.toDog y.startedAt) before ∧
    (reached st w reqs before).state.data.presence.isPresent inv.toDog y.startedAt = true
  found : ∃ before, CallAt st w reqs sched i (.invitesGet inv.id) before ∧
    (reached st w reqs before).state.data.invites.get inv.id = some inv
  concerns : y.Over inv
  inserted : ∃ before s, CallAt st w reqs sched i (.sessionsInsert y) before ∧
    (reached st w reqs before).state.data.sessions.insert y = .ok s

/-- Some request took up the invite, with the session `y`. -/
def TakenUp (st : AppState) (w : World) (reqs : List Request) (sched : List (Nat × DateTime)) (inv : Invite)
    (y : SessionRecord) : Prop := ∃ i, TakenUpBy st w reqs sched i inv y

/-- **The session is by the will of both sides**: it was put in when its invite was taken up, and the invite had been
sent. -/
def Consented (st : AppState) (w : World) (reqs : List Request) (sched : List (Nat × DateTime)) (x : SessionRecord) :
    Prop := ∃ inv y, Sent st w reqs sched inv ∧ TakenUp st w reqs sched inv y ∧ x.Kin y

theorem routeInvite_ok {ord : IterOrder} {dog p : DogId} {preferred : Option DogId} {g : BondGraph}
    {present : List DogId} {caller : Bool} (h : routeInvite ord dog preferred g present caller = .ok p) :
    caller = true ∧ g.mutualEligible dog p = true ∧ p ∈ present := by
  cases caller with
  | false => cases h
  | true =>
    cases preferred with
    | none => exact ⟨rfl, (routeInvite_none_ok h).bonded, (routeInvite_none_ok h).member⟩
    | some peer =>
      by_cases hpeer : peer = dog
      · simp [routeInvite, hpeer] at h
      · exact ⟨rfl, ((routeInvite_some_ok hpeer).1 h).2⟩

section

variable {st : AppState} {w : World} {reqs : List Request} {sched : List (Nat × DateTime)} {i : Nat} {t : DateTime}

/-- A call of the log was made at a moment, and answered from the state of that moment. -/
theorem told_at {c : Call} {r : c.Resp} (h : (⟨i, t, c, r⟩ : ApiStep) ∈ own i (reached st w reqs sched).log) :
    ∃ before, CallAt st w reqs sched i c before ∧ r = (exec st t c (reached st w reqs before).state).1 := by
  rcases Pool.mem_log_run (Interleave.mem_own.1 h).1 with h | ⟨before, hle, hnext, hresp⟩
  · cases h
  · exact ⟨before, ⟨⟨t, hle⟩, hnext⟩, hresp⟩

/-- What the clock answers to the first call of a program is what it showed at the program's first step. -/
theorem began_at {now : DateTime}
    (h : ∃ t, (own i (reached st w reqs sched).log).head? = some ⟨i, t, .utcNow, now⟩) :
    sched.lookup i = some now := by
  obtain ⟨t, hfirst⟩ := h
  obtain ⟨before, -, hnow⟩ := told_at (List.mem_of_mem_head? hfirst)
  rw [Pool.lookup_of_first sched rfl hfirst]
  exact congrArg some hnow.symm

theorem allowed_at {d : DogId} {now : DateTime}
    (h : ∃ t pol, (⟨i, t, .policiesEnsure d, pol⟩ : ApiStep) ∈ own i (reached st w reqs sched).log ∧
      socialAllowed pol now = .ok ()) :
    ∃ before, CallAt st w reqs sched i (.policiesEnsure d) before ∧
      socialAllowed ((reached st w reqs before).state.data.policies.current d) now = .ok () := by
  obtain ⟨t, pol, hmem, hok⟩ := h
  obtain ⟨before, hat, hpol⟩ := told_at hmem
  have hcurrent : pol = (reached st w reqs before).state.data.policies.current d :=
    hpol.trans (PolicyStore.ensure_fst _ _)
  exact ⟨before, hat, hcurrent ▸ hok⟩

theorem AskedFor.sent {inv : Invite} (h : AskedFor st reqs (reached st w reqs sched).log inv) :
    Sent st w reqs sched inv := by
  obtain ⟨i, hd, b, now, hr, hv, hdog, hpast, t₃, hput⟩ := h
  obtain ⟨t, present, caller, hroute, ⟨t₁, hlisted⟩, t₂, hcaller⟩ := hpast.routed
  obtain ⟨before, hat, hrouted⟩ := told_at hroute
  obtain ⟨rfl, hbonded, hmember⟩ := routeInvite_ok hrouted.symm
  obtain ⟨before₁, hat₁, hpresent⟩ := told_at hlisted
  obtain ⟨before₂, hat₂, hthere⟩ := told_at hcaller
  obtain ⟨before₃, hat₃, hinserted⟩ := told_at (Interleave.mem_own.2 ⟨hput, rfl⟩)
  rw [hpresent] at hmember
  refine ⟨i, now, ⟨hd, b, hr, hv, hdog⟩, began_at hpast.began, fun d hd => allowed_at (hpast.allowed d hd),
    ⟨before₂, hat₂, hthere.symm⟩, ⟨before₁, hat₁, PresenceStore.mem_presentDogIds.1 hmember⟩,
    ⟨before, b.toDog, present, true, hat, hbonded⟩, before₃, ?_⟩
  cases hs : (reached st w reqs before₃).state.data.invites.insert inv with
  | error e =>
    simp only [exec, hs] at hinserted
    cases hinserted
  | ok s => exact ⟨s, hat₃, rfl⟩

theorem TookUp.takenUp {inv : Invite} {y : SessionRecord} (h : TookUp st reqs (reached st w reqs sched).log inv y) :
    TakenUp st w reqs sched inv y := by
  obtain ⟨i, hd, b, hr, hcaller, hpast, hover, t₃, hput⟩ := h
  obtain ⟨t₁, hpresent⟩ := hpast.present
  obtain ⟨t₂, hfound⟩ := hpast.found
  obtain ⟨before₁, hat₁, hthere⟩ := told_at hpresent
  obtain ⟨before₂, hat₂, hread⟩ := told_at hfound
  obtain ⟨before₃, hat₃, hinserted⟩ := told_at (Interleave.mem_own.2 ⟨hput, rfl⟩)
  refine ⟨i, ⟨hd, b, hr, hcaller⟩, began_at hpast.began, allowed_at hpast.allowed, ⟨before₁, hat₁, hthere.symm⟩,
    ⟨before₂, hat₂, hread.symm⟩, hover, before₃, ?_⟩
  cases hs : (reached st w reqs before₃).state.data.sessions.insert y with
  | error e =>
    simp only [exec, hs] at hinserted
    cases hinserted
  | ok s => exact ⟨s, hat₃, rfl⟩

/-- A session in the store is by the will of both sides. -/
theorem session_consented (hw : w.data = {}) {k : SessionId} {x : SessionRecord}
    (h : (reached st w reqs sched).state.data.sessions.get k = some x) : Consented st w reqs sched x := by
  rcases (consenting_run hw sched).sessions h with hnone | ⟨inv, y, hasked, htook, hkin⟩
  · exact hnone.elim
  · exact ⟨inv, y, (hasked.resolve_left id).sent, htook.takenUp, hkin⟩

theorem CallAt.mono {later before : List (Nat × DateTime)} {c : Call} (h : CallAt st w reqs sched i c before)
    (hle : sched <+: later) : CallAt st w reqs later i c before where
  taken := by
    obtain ⟨t, ht⟩ := h.taken
    exact ⟨t, ht.trans hle⟩
  next := h.next

theorem lookup_of_prefix {later : List (Nat × DateTime)} {now : DateTime} (h : sched.lookup i = some now)
    (hle : sched <+: later) : later.lookup i = some now := by
  obtain ⟨rest, rfl⟩ := hle
  rw [List.lookup_append, h]
  rfl

theorem Sent.mono {later : List (Nat × DateTime)} {inv : Invite} (h : Sent st w reqs sched inv)
    (hle : sched <+: later) : Sent st w reqs later inv := by
  obtain ⟨i, now, h⟩ := h
  obtain ⟨before₁, hat₁, hcaller⟩ := h.callerPresent
  obtain ⟨before₂, hat₂, hcallee⟩ := h.calleePresent
  obtain ⟨before₃, preferred, present, caller, hat₃, hbonded⟩ := h.bonded
  obtain ⟨before₄, s, hat₄, hinserted⟩ := h.inserted
  refine ⟨i, now, h.caller, lookup_of_prefix h.began hle, fun d hd => ?_, ⟨before₁, hat₁.mono hle, hcaller⟩,
    ⟨before₂, hat₂.mono hle, hcallee⟩, ⟨before₃, preferred, present, caller, hat₃.mono hle, hbonded⟩,
    before₄, s, hat₄.mono hle, hinserted⟩
  obtain ⟨before, hat, hok⟩ := h.allowed d hd
  exact ⟨before, hat.mono hle, hok⟩

theorem TakenUp.mono {later : List (Nat × DateTime)} {inv : Invite} {y : SessionRecord}
    (h : TakenUp st w reqs sched inv y) (hle : sched <+: later) : TakenUp st w reqs later inv y := by
  obtain ⟨i, h⟩ := h
  obtain ⟨before₁, hat₁, hallowed⟩ := h.allowed
  obtain ⟨before₂, hat₂, hpresent⟩ := h.present
  obtain ⟨before₃, hat₃, hfound⟩ := h.found
  obtain ⟨before₄, s, hat₄, hinserted⟩ := h.inserted
  exact ⟨i, h.callee, lookup_of_prefix h.began hle, ⟨before₁, hat₁.mono hle, hallowed⟩,
    ⟨before₂, hat₂.mono hle, hpresent⟩, ⟨before₃, hat₃.mono hle, hfound⟩, h.concerns, before₄, s, hat₄.mono hle,
    hinserted⟩

theorem Consented.mono {later : List (Nat × DateTime)} {x : SessionRecord} (h : Consented st w reqs sched x)
    (hle : sched <+: later) : Consented st w reqs later x := by
  obtain ⟨inv, y, hsent, htaken, hkin⟩ := h
  exact ⟨inv, y, hsent.mono hle, htaken.mono hle, hkin⟩

end

/-- **No dog comes into contact but by its own terminal.**  Whatever requests are at work together, an invite in the
store was sent by a request with the credentials of its caller, which found caller and callee bonded both ways, present
and allowed at the time it read; and a session in the store is over such an invite, which a request with the credentials
of its callee took up while it was ringing, and found that dog present and allowed at the time it read. -/
theorem contact_consented (st : AppState) (w : World) (hw : w.data = {}) (reqs : List Request)
    (sched : List (Nat × DateTime)) :
    (∀ k inv, (reached st w reqs sched).state.data.invites.get k = some inv → Sent st w reqs sched inv) ∧
    ∀ k x, (reached st w reqs sched).state.data.sessions.get k = some x → Consented st w reqs sched x :=
  ⟨fun _ _ h => ((consenting_run hw sched).invites h).elim False.elim AskedFor.sent,
    fun _ _ h => session_consented hw h⟩

/-- The requests by which dogs 1 and 2 meet, each handled in its turn. -/
def inOrder : List (Nat × DateTime) := ((List.range 5).flatMap (fun i => List.replicate 20 i)).map (fun i => (i, noon))

theorem contact_consented_meeting : Consented bench fresh (meeting.map (·.2)) inOrder firstSession :=
  (contact_consented bench fresh rfl (meeting.map (·.2)) inOrder).2 ⟨1⟩ firstSession (by decide +kernel)

end CanisLink
