import CanisLink.Announce
import CanisLink.RateKept
/-!
# Answers — what a call, an accept and an Again answer, and what they leave

`Handled` lists the ledgers a request can leave.  Here the reply stands next to what is left: a call is refused, panics
over its ring deadline, clashes with an invite or rings, and is counted only then; an accept is refused, panics over a
deadline, clashes with a session or begins one; an Again is refused, panics or renews.
-/
namespace CanisLink

open Interleave (Prog)
open Api

/-- The invites of a dog that count at an instant. -/
def World.recent (w : World) (d : DogId) (now : DateTime) : List DateTime :=
  (w.data.invites.times d).filter (inLastHour now ·)

/-- The dogs in an open invite, once the expired ones are swept. -/
def World.ringing (st : AppState) (w : World) (now : DateTime) : HashMap DogId InviteId :=
  (w.data.invites.expireDue st.order now).2.openForDog

/-- **What a call answers, and the invites of the caller it leaves to be counted**; the invite is made at the instant of
its thirteenth call. -/
inductive Called (st : AppState) (w : World) (κ : Nat → DateTime) (h : HeaderMap) (b : CreateInviteBody) :
    Reply → List DateTime → Prop
  | refused {code : StatusCode} {text : String} {left : List DateTime} (guards : callThrough st w (κ 0) h b = none)
      (pruned : left = w.data.invites.times b.dogId ∨ left = w.recent b.dogId (κ 0)) :
      Called st w κ h b (.error code text) left
  | panicked {peer : DogId} (through : callThrough st w (κ 0) h b = some peer)
      (late : (κ 12).plus (milliseconds RING_TIMEOUT_MS) = none) : Called st w κ h b .panicked (w.recent b.dogId (κ 0))
  | clashed {peer : DogId} (through : callThrough st w (κ 0) h b = some peer)
      (taken : b.dogId ∈ w.ringing st (κ 0) ∨ peer ∈ w.ringing st (κ 0)) :
      Called st w κ h b (.error .conflict "busy") (w.recent b.dogId (κ 0))
  | created {inv : Invite} (through : callThrough st w (κ 0) h b = some inv.toDog)
      (rings : (κ 12).plus (milliseconds RING_TIMEOUT_MS) = some inv.expiresAt)
      (free : b.dogId ∉ w.ringing st (κ 0) ∧ inv.toDog ∉ w.ringing st (κ 0)) :
      Called st w κ h b (.created inv) (w.recent b.dogId (κ 0) ++ [κ 0])

/-- What the call answers. -/
def callReply (st : AppState) (w : World) (κ : Nat → DateTime) (h : HeaderMap) (b : CreateInviteBody) : Reply :=
  ((createInvite st h b).eval (exec st) κ w).1

/-- **What an accept at `now` answers, and the sessions it leaves.** -/
inductive Accepted (st : AppState) (w : World) (now : DateTime) (h : HeaderMap) (i : Uuid) (b : JsonBody) :
    Reply → SessionStore → Prop
  | refused {code : StatusCode} {text : String} (guards : acceptThrough st w now h i b = none) :
      Accepted st w now h i b (.error code text) w.data.sessions
  | panicked (guards : (acceptThrough st w now h i b).isSome) (nothing : acceptedSession st w now h i b = none) :
      Accepted st w now h i b .panicked w.data.sessions
  | clashed {x : SessionRecord} {e : String} (session : acceptedSession st w now h i b = some x)
      (clash : w.data.sessions.insert x = .error e) :
      Accepted st w now h i b (.error .conflict "session busy") w.data.sessions
  | began {x : SessionRecord} {s : SessionStore} {role : String} (session : acceptedSession st w now h i b = some x)
      (inserted : w.data.sessions.insert x = .ok s) : Accepted st w now h i b (.accepted x role) s

/-- **What an Again answers, and the sessions it leaves**, when its clock reads `now`. -/
inductive Renewed (st : AppState) (w : World) (now : DateTime) (h : HeaderMap) (i : Uuid) (b : JsonBody) :
    Reply → SessionStore → Prop
  | refused {code : StatusCode} {text : String}
      (guards : ∀ dog x, jsonCaller st h b = some dog → w.data.sessions.get ⟨i⟩ = some x → ¬ x.hasDog dog) :
      Renewed st w now h i b (.error code text) w.data.sessions
  | panicked {dog : DogId} {x : SessionRecord} (caller : jsonCaller st h b = some dog)
      (found : w.data.sessions.get ⟨i⟩ = some x) (party : x.hasDog dog)
      (overflow : extendSegment now (w.data.policies.current dog).segmentSec x.maxEndAt = none) :
      Renewed st w now h i b .panicked w.data.sessions
  | extended {dog : DogId} {x : SessionRecord} {deadline : DateTime} (caller : jsonCaller st h b = some dog)
      (found : w.data.sessions.get ⟨i⟩ = some x) (party : x.hasDog dog)
      (sum : extendSegment now (w.data.policies.current dog).segmentSec x.maxEndAt = some deadline) :
      Renewed st w now h i b (.extended { x with segmentDeadlineAt := deadline })
        (w.data.sessions.update ⟨i⟩ (fun s => { s with segmentDeadlineAt := deadline })).2

/-! ## create_invite -/

section

variable {st : AppState} {w w' : World} {κ : Nat → DateTime} {t now : DateTime} {h : HeaderMap} {b : CreateInviteBody}

theorem callThrough_unverified {s : StatusCode} (hv : verifyDevice st h b.terminalId b.dogId = .error s) :
    callThrough st w now h b = none := by
  unfold callThrough
  rw [hv]
  rfl

theorem callThrough_denied {e : PolicyDeny} (hs : socialAllowed (w.data.policies.current b.dogId) now = .error e) :
    callThrough st w now h b = none := by
  unfold callThrough
  simp [hs, Except.isOk, Except.toBool]

theorem callThrough_limited {e : PolicyDeny} (hr : inviteRateOk (w.data.invites.invitesLastHour b.dogId now).1
    (w.data.policies.current b.dogId).maxInvitesPerHour = .error e) : callThrough st w now h b = none := by
  unfold callThrough
  simp [hr, Except.isOk, Except.toBool]

theorem callThrough_unrouted {e : InviteError} (hroute : routeInvite st.order b.dogId b.toDog w.data.bonds
    (w.data.presence.presentDogIds st.order now) (w.data.presence.isPresent b.dogId now) = .error e) :
    callThrough st w now h b = none := by
  unfold callThrough
  simp [hroute]

theorem callThrough_peer_denied {peer : DogId} {e : PolicyDeny} (hroute : routeInvite st.order b.dogId b.toDog
    w.data.bonds (w.data.presence.presentDogIds st.order now) (w.data.presence.isPresent b.dogId now) = .ok peer)
    (hs : socialAllowed (w.data.policies.current peer) now = .error e) : callThrough st w now h b = none := by
  unfold callThrough
  simp [hroute, hs, Except.isOk, Except.toBool]

/-- A dog that is asked for and found in an invite or a session is in no call that gets through. -/
theorem callThrough_busy {d : DogId} (hbusy : (((w.data.invites.expireDue st.order now).2.forDog d).isNone &&
    (w.data.sessions.forDog d).isNone) = false) (hd : d = b.dogId ∨ routeInvite st.order b.dogId b.toDog w.data.bonds
      (w.data.presence.presentDogIds st.order now) (w.data.presence.isPresent b.dogId now) = .ok d) :
    callThrough st w now h b = none := by
  unfold callThrough
  rcases hd with rfl | hroute
  · simp [hbusy]
  · simp [hroute, hbusy]

/-- The dog is asked for in two calls, if it is free. -/
theorem busy_bind {β : Type} {d : DogId} {f : Bool → Api β} {Q : β → World → Prop}
    (hbusy : ((w.data.invites.forDog d).isNone && (w.data.sessions.forDog d).isNone) = false →
      ∀ κ', (f true).Yields (exec st) κ' w Q)
    (hfree : ((w.data.invites.forDog d).isNone && (w.data.sessions.forDog d).isNone) = true →
      (f false).Yields (exec st) (fun n => κ (n + 2)) w Q) : (busy d >>= f).Yields (exec st) κ w Q := by
  unfold busy
  simp only [invitesForDog, sessionsForDog, Prog.op_bind, Prog.pure_eq]
  refine .call (fun found w₁ h₁ => ?_)
  obtain rfl : w = w₁ := congrArg Prod.snd h₁
  have hf : w.data.invites.forDog d = found := congrArg Prod.fst h₁
  cases found with
  | some inv => exact hbusy (by rw [hf]; rfl) _
  | none =>
    refine .call (fun x w₂ h₂ => ?_)
    obtain rfl : w = w₂ := congrArg Prod.snd h₂
    have hx : w.data.sessions.forDog d = x := congrArg Prod.fst h₂
    cases x with
    | some y => exact hbusy (by rw [hf, hx]; rfl) _
    | none => exact hfree (by rw [hf, hx]; rfl)

/-- What a step leaves of a dog's list. -/
theorem times_step {c : Call} {r : c.Resp} (h₁ : exec st t c w = (r, w')) (d : DogId) : w'.data.invites.times d =
    (w.data.invites.times d).filter (fun t' => (c.counted d).all (inLastHour · t')) ++ (c.recorded d).toList := by
  rw [← show (exec st t c w).2 = w' from congrArg Prod.snd h₁]
  exact exec_times t c w d

theorem times_kept {c : Call} {r : c.Resp} (h₁ : exec st t c w = (r, w')) {d : DogId} (hcounted : c.counted d = none)
    (hrecorded : c.recorded d = none) : w'.data.invites.times d = w.data.invites.times d := by
  rw [times_step h₁, hcounted, hrecorded]
  simp

/-- A new invite is recorded once, then saved and announced. -/
theorem announced_times {inv : Invite} {d dog : DogId} {ev : DeviceEvent} {reply : Reply} {Q : Reply → World → Prop}
    (hQ : ∀ w', w'.data.invites.times d = w.data.invites.times d ++ [now] → Q reply w') :
    (Prog.call (Call.recordInvite d now) fun _ =>
      if st.pool = true then
        Prog.call (Call.sql (.saveInvite inv)) fun _ => Prog.call (Call.sql (.recordInviteEvent d now)) fun _ =>
          Prog.call (Call.publish dog ev) fun _ => Prog.done reply
      else Prog.call (Call.publish dog ev) fun _ => Prog.done reply).Yields (exec st) κ w Q := by
  refine .call (fun _ w₁ h₁ => ?_)
  have t₁ : w₁.data.invites.times d = w.data.invites.times d ++ [now] := by
    rw [times_step h₁]
    simp [Call.counted, Call.recorded]
  split
  · refine .call (fun _ w₂ h₂ => .call (fun _ w₃ h₃ => .call (fun _ w₄ h₄ => .done (hQ _ ?_))))
    rw [times_kept h₄ rfl rfl, times_kept h₃ rfl rfl, times_kept h₂ rfl rfl, t₁]
  · refine .call (fun _ w₂ h₂ => .done (hQ _ ?_))
    rw [times_kept h₂ rfl rfl, t₁]

theorem newInvite_none {id : InviteId} {dog peer : DogId} {mode : InviteMode} :
    newInvite id now dog peer mode = none ↔ now.plus (milliseconds RING_TIMEOUT_MS) = none := by
  unfold newInvite
  cases now.plus (milliseconds RING_TIMEOUT_MS) <;> simp

/-- An invite is inserted exactly if the index knows neither of its dogs. -/
theorem invitesInsert_isOk {inv : Invite} {r : Except String Unit} (h₁ : exec st t (.invitesInsert inv) w = (r, w')) :
    r.isOk = true ↔ inv.fromDog ∉ w.data.invites.openForDog ∧ inv.toDog ∉ w.data.invites.openForDog := by
  rw [← show (exec st _ (.invitesInsert inv) w).1 = r from congrArg Prod.fst h₁]
  simp only [exec]
  by_cases hopen : inv.fromDog ∈ w.data.invites.openForDog ∨ inv.toDog ∈ w.data.invites.openForDog
  · rw [show w.data.invites.insert inv = .error "busy" from if_pos hopen]
    exact iff_of_false Bool.false_ne_true (fun h => hopen.elim h.1 h.2)
  · unfold InviteStore.insert
    rw [if_neg hopen]
    exact iff_of_true rfl (not_or.1 hopen)

/-- **A call handled alone**, its reply and the invites it leaves to be counted. -/
theorem createInvite_yields (h : HeaderMap) (b : CreateInviteBody) : (createInvite st h b).Yields (exec st) κ w
    (fun r w' => Called st w κ h b r (w'.data.invites.times b.dogId)) := by
  unfold createInvite
  simp only [utcNow, expireDue, policiesGet, policiesEnsure, invitesLastHour, presentDogIds, isPresent, Api.routeInvite,
    newUuid, invitesInsert, recordInvite, sql, publish, Prog.op_bind, Prog.pure_eq]
  cases hv : verifyDevice st h b.terminalId b.dogId with
  | error s => exact .done (.refused (callThrough_unverified hv) (.inl rfl))
  | ok u =>
  refine .call (fun now w₁ h₁ => .call (fun due w₂ h₂ => .call (fun pol w₃ h₃ => ?_)))
  obtain rfl : κ 0 = now := congrArg Prod.fst h₁
  obtain rfl : w = w₁ := congrArg Prod.snd h₁
  have l₂ := expire_step h₂
  have v₂ : w₂.scene = (w.data.presence, w.data.bonds, (w.data.invites.expireDue st.order (κ 0)).2.forDog) := by
    rw [← show (exec st _ (.expireDue (κ 0)) w).2 = w₂ from congrArg Prod.snd h₂]
    rfl
  have o₃ : w₃.data.invites.openForDog = w.ringing st (κ 0) := by
    rw [ensure_invites h₃, expireDue_invites h₂]
    rfl
  have l₃ := (aside_step (c := .policiesEnsure b.dogId) trivial h₃).trans l₂
  have v₃ := (scene_step (c := .policiesEnsure b.dogId) trivial h₃).trans v₂
  have t₃ : w₃.data.invites.times b.dogId = w.data.invites.times b.dogId := by
    rw [times_kept h₃ rfl rfl, times_kept h₂ rfl rfl]
  obtain rfl : pol = w.data.policies.current b.dogId :=
    (ensure_step h₃).trans (congrFun (congrArg Ledger.policies l₂) _)
  cases hs : socialAllowed (w.data.policies.current b.dogId) (κ 0) with
  | error e => exact .done (.refused (callThrough_denied hs) (.inl t₃))
  | ok u =>
  refine .call (fun count w₄ h₄ => ?_)
  have l₄ := (aside_step (c := .invitesLastHour b.dogId (κ 0)) trivial h₄).trans l₃
  have v₄ := (scene_step (c := .invitesLastHour b.dogId (κ 0)) trivial h₄).trans v₃
  have t₄ : w₄.data.invites.times b.dogId = w.recent b.dogId (κ 0) := by
    rw [times_step h₄, t₃]
    simp [Call.counted, Call.recorded, World.recent]
  have o₄ : w₄.data.invites.openForDog = w.ringing st (κ 0) := by
    rw [← o₃, ← show (exec st _ (.invitesLastHour b.dogId (κ 0)) w₃).2 = w₄ from congrArg Prod.snd h₄]
    show (w₃.data.invites.invitesLastHour b.dogId (κ 0)).2.openForDog = _
    unfold InviteStore.invitesLastHour
    split <;> rfl
  obtain rfl : (w.data.invites.invitesLastHour b.dogId (κ 0)).1 = count := by
    rw [← invitesLastHour_expireDue st.order _ (κ 0), ← expireDue_invites h₂, ← ensure_invites h₃]
    exact congrArg Prod.fst h₄
  cases hr : inviteRateOk (w.data.invites.invitesLastHour b.dogId (κ 0)).1
      (w.data.policies.current b.dogId).maxInvitesPerHour with
  | error e => exact .done (.refused (callThrough_limited hr) (.inr t₄))
  | ok u =>
  have hforDog : ∀ {w' : World} (d : DogId),
      w'.scene = (w.data.presence, w.data.bonds, (w.data.invites.expireDue st.order (κ 0)).2.forDog) →
      w'.data.invites.forDog d = (w.data.invites.expireDue st.order (κ 0)).2.forDog d :=
    fun d v => congrFun (congrArg (fun v => v.2.2) v) d
  have hsessions : ∀ {w' : World} (d : DogId), w'.ledger = w.ledger.expire (κ 0) →
      w'.data.sessions.forDog d = w.data.sessions.forDog d :=
    fun d l => congrArg (fun s => s.forDog d) (congrArg Ledger.sessions l)
  refine busy_bind (fun hbusy κ' => .done (.refused (callThrough_busy (d := b.dogId) ?_ (.inl rfl)) (.inr t₄)))
    (fun hfree => ?_)
  · rwa [hforDog _ v₄, hsessions _ l₄] at hbusy
  rw [hforDog _ v₄, hsessions _ l₄] at hfree
  refine .call (fun presentIds w₅ h₅ => .call (fun callerPresent w₆ h₆ => .call (fun routed w₇ h₇ => ?_)))
  obtain rfl : w₄ = w₅ := congrArg Prod.snd h₅
  obtain rfl : w₄ = w₆ := congrArg Prod.snd h₆
  obtain rfl : w₄ = w₇ := congrArg Prod.snd h₇
  have hroute : routeInvite st.order b.dogId b.toDog w.data.bonds (w.data.presence.presentDogIds st.order (κ 0))
      (w.data.presence.isPresent b.dogId (κ 0)) = routed := by
    rw [← show w₄.data.presence = w.data.presence from congrArg Prod.fst v₄,
      ← show w₄.data.bonds = w.data.bonds from congrArg (fun v => v.2.1) v₄,
      show w₄.data.presence.presentDogIds st.order (κ 0) = presentIds from congrArg Prod.fst h₅,
      show w₄.data.presence.isPresent b.dogId (κ 0) = callerPresent from congrArg Prod.fst h₆]
    exact congrArg Prod.fst h₇
  cases routed with
  | error e => exact .done (.refused (callThrough_unrouted hroute) (.inr t₄))
  | ok peer =>
  refine .call (fun peerPol w₈ h₈ => ?_)
  have l₈ := (aside_step (c := .policiesEnsure peer) trivial h₈).trans l₄
  have v₈ := (scene_step (c := .policiesEnsure peer) trivial h₈).trans v₄
  have t₈ := (times_kept h₈ rfl rfl).trans t₄
  have o₈ : w₈.data.invites.openForDog = w.ringing st (κ 0) := by rw [ensure_invites h₈, o₄]
  obtain rfl : peerPol = w.data.policies.current peer :=
    (ensure_step h₈).trans (congrFun (congrArg Ledger.policies l₄) _)
  cases hps : socialAllowed (w.data.policies.current peer) (κ 0) with
  | error e => exact .done (.refused (callThrough_peer_denied hroute hps) (.inr t₈))
  | ok u =>
  refine busy_bind (fun hbusy κ' => .done (.refused (callThrough_busy (d := peer) ?_ (.inr hroute)) (.inr t₈)))
    (fun hpeerFree => ?_)
  · rwa [hforDog _ v₈, hsessions _ l₈] at hbusy
  rw [hforDog _ v₈, hsessions _ l₈] at hpeerFree
  have hthrough : callThrough st w (κ 0) h b = some peer := by
    unfold callThrough
    simp only [hv, hs, hr, hfree, hroute, hps, hpeerFree]
    rfl
  refine .call (fun created w₉ h₉ => .call (fun id w₁₀ h₁₀ => ?_))
  obtain rfl : κ 12 = created := congrArg Prod.fst h₉
  obtain rfl : w₈ = w₉ := congrArg Prod.snd h₉
  have i₁₀ : w₁₀.data.invites = w₈.data.invites := by
    rw [← show (exec st _ .newUuid w₈).2 = w₁₀ from congrArg Prod.snd h₁₀]
    rfl
  have t₁₀ : w₁₀.data.invites.times b.dogId = w.recent b.dogId (κ 0) := by rw [i₁₀, t₈]
  cases hnew : newInvite ⟨id⟩ (κ 12) b.dogId peer b.mode with
  | none => exact .done (t₁₀ ▸ .panicked hthrough (newInvite_none.1 hnew))
  | some invite =>
  obtain ⟨-, hfrom, hto, -, -, hrings⟩ := newInvite_ok hnew
  refine .call (fun inserted w₁₁ h₁₁ => ?_)
  have t₁₁ := (times_kept h₁₁ rfl rfl).trans t₁₀
  have hins := invitesInsert_isOk h₁₁
  rw [i₁₀, o₈, hfrom, hto] at hins
  cases inserted with
  | error e =>
    have htaken : ¬ (b.dogId ∉ w.ringing st (κ 0) ∧ peer ∉ w.ringing st (κ 0)) :=
      fun hopen => Bool.false_ne_true (hins.2 hopen)
    rw [not_and_or, not_not, not_not] at htaken
    exact .done (t₁₁ ▸ .clashed hthrough htaken)
  | ok u =>
    refine announced_times (fun w₁₂ t₁₂ => ?_)
    rw [t₁₂, t₁₁]
    exact .created (hto ▸ hthrough) hrings (hto ▸ hins.1 rfl)

end

/-! ## Accept and Again -/

section

variable {st : AppState} {w : World} {κ : Nat → DateTime} {h : HeaderMap} {i : Uuid} {b : JsonBody}

theorem acceptThrough_of_caller {dog : DogId} {inv : Invite} {now : DateTime} (hcaller : jsonCaller st h b = some dog)
    (hget : w.data.invites.get ⟨i⟩ = some inv) : acceptThrough st w now h i b =
      if (socialAllowed (w.data.policies.current dog) now).isOk &&
        (acceptCheck inv dog (w.data.presence.isPresent dog now) now).isOk then some (dog, inv) else none := by
  unfold acceptThrough
  rw [hcaller, hget]

theorem acceptThrough_no_caller {now : DateTime} (hcaller : jsonCaller st h b = none) :
    acceptThrough st w now h i b = none := by
  unfold acceptThrough
  rw [hcaller]

theorem jsonCaller_denied {dog terminal : Uuid} {s : StatusCode} (hd : st.formats.parseUuid b.dogId = some dog)
    (ht : st.formats.parseUuid b.terminalId = some terminal) (hv : verifyDevice st h ⟨terminal⟩ ⟨dog⟩ = .error s) :
    jsonCaller st h b = none := by
  unfold jsonCaller
  rw [hd, ht]
  exact if_neg (by rw [hv]; exact Bool.false_ne_true)

theorem acceptThrough_denied {dog : DogId} {now : DateTime} (hcaller : jsonCaller st h b = some dog) {e : PolicyDeny}
    (hs : socialAllowed (w.data.policies.current dog) now = .error e) : acceptThrough st w now h i b = none := by
  cases hget : w.data.invites.get ⟨i⟩ with
  | none =>
    unfold acceptThrough
    rw [hcaller, hget]
  | some inv =>
    rw [acceptThrough_of_caller hcaller hget, hs]
    rfl

theorem acceptThrough_unchecked {dog : DogId} {inv : Invite} {now : DateTime} (hcaller : jsonCaller st h b = some dog)
    (hget : w.data.invites.get ⟨i⟩ = some inv)
    (hcheck : acceptCheck inv dog (w.data.presence.isPresent dog now) now ≠ .ok ()) :
    acceptThrough st w now h i b = none := by
  rw [acceptThrough_of_caller hcaller hget]
  cases hc : acceptCheck inv dog (w.data.presence.isPresent dog now) now with
  | error e => exact if_neg (by simp [Except.isOk, Except.toBool])
  | ok u => exact absurd hc hcheck

/-- An invite that is gone or has expired is not accepted. -/
theorem acceptThrough_unfound {dog : DogId} {now : DateTime} (hcaller : jsonCaller st h b = some dog)
    (hfound : (w.ledger.expire now).invites ⟨i⟩ = none) : acceptThrough st w now h i b = none := by
  cases hget : w.data.invites.get ⟨i⟩ with
  | none =>
    unfold acceptThrough
    rw [hcaller, hget]
  | some inv =>
    refine acceptThrough_unchecked hcaller hget (fun hc => ?_)
    have hlive := (acceptCheck_ok hc).2.2.1
    have hkept : (w.ledger.expire now).invites ⟨i⟩ = some inv :=
      Option.filter_eq_some_iff.2 ⟨hget, by simpa [isExpired] using hlive⟩
    rw [hfound] at hkept
    cases hkept

theorem acceptedSession_none {dog : DogId} {inv : Invite} {now : DateTime} (hcaller : jsonCaller st h b = some dog)
    (hget : w.data.invites.get ⟨i⟩ = some inv)
    (hn : ∀ session maxEndAt segmentDeadlineAt,
      acceptInvite ⟨w.nextUuid⟩ inv dog (w.data.presence.isPresent dog now) now = some (.ok session) →
      (seconds (asI64 (w.data.policies.current dog).maxSessionSec)).bind now.plus = some maxEndAt →
      (seconds (asI64 (w.data.policies.current dog).segmentSec)).bind now.plus = some segmentDeadlineAt → False) :
    acceptedSession st w now h i b = none := by
  cases hx : acceptedSession st w now h i b with
  | none => rfl
  | some x =>
    obtain ⟨d, v, session, maxEndAt, segmentDeadlineAt, hd, hv, -, ha, hmax, hseg, -⟩ := acceptedSession_some hx
    cases hcaller.symm.trans hd
    cases hget.symm.trans hv
    exact (hn session maxEndAt segmentDeadlineAt ha hmax hseg).elim

/-- **An accept handled alone**, its reply and the sessions it leaves. -/
theorem acceptInvite_yields (h : HeaderMap) (i : Uuid) (b : JsonBody) :
    (acceptInviteHandler st h i b).Yields (exec st) κ w
      (fun r w' => Accepted st w (κ 0) h i b r w'.data.sessions) := by
  unfold acceptInviteHandler
  simp only [utcNow, expireDue, policiesGet, policiesEnsure, invitesGet, isPresent, newUuid, invitesClose,
    sessionsInsert, sql, Prog.op_bind, Prog.pure_eq]
  cases hd : st.formats.parseUuid b.dogId with
  | none => exact .done (.refused (acceptThrough_no_caller (by unfold jsonCaller; rw [hd])))
  | some dog =>
  cases ht : st.formats.parseUuid b.terminalId with
  | none => exact .done (.refused (acceptThrough_no_caller (by unfold jsonCaller; rw [hd, ht])))
  | some terminal =>
  dsimp only
  cases hv : verifyDevice st h ⟨terminal⟩ ⟨dog⟩ with
  | error s => exact .done (.refused (acceptThrough_no_caller (jsonCaller_denied hd ht hv)))
  | ok u =>
  have hcaller := jsonCaller_eq hd ht hv
  refine .call (fun now w₁ h₁ => .call (fun pol w₂ h₂ => ?_))
  obtain rfl : κ 0 = now := congrArg Prod.fst h₁
  have l₁ := aside_step (c := .utcNow) trivial h₁
  have l₂ := (aside_step (c := .policiesEnsure ⟨dog⟩) trivial h₂).trans l₁
  obtain rfl : pol = w.data.policies.current ⟨dog⟩ :=
    (ensure_step h₂).trans (congrFun (congrArg Ledger.policies l₁) _)
  -- no call up to the insert touches the sessions
  have hsame : ∀ {w' : World}, w'.ledger = w.ledger ∨ w'.ledger = w.ledger.expire (κ 0) →
      w'.data.sessions = w.data.sessions := by
    rintro w' (l | l)
    · exact congrArg Ledger.sessions l
    · exact (congrArg Ledger.sessions l).trans rfl
  cases hs : socialAllowed (w.data.policies.current ⟨dog⟩) (κ 0) with
  | error e => exact .done (hsame (.inl l₂) ▸ .refused (acceptThrough_denied hcaller hs))
  | ok u =>
  refine .call (fun _ w₃ h₃ => .call (fun found w₄ h₄ => ?_))
  have l₃ : w₃.ledger = w.ledger.expire (κ 0) := by rw [expire_step h₃, l₂]
  have l₄ := (aside_step (c := .invitesGet ⟨i⟩) trivial h₄).trans l₃
  have hfound : (w.ledger.expire (κ 0)).invites ⟨i⟩ = found := by
    rw [← l₃]
    exact congrArg Prod.fst h₄
  cases found with
  | none => exact .done (hsame (.inr l₄) ▸ .refused (acceptThrough_unfound hcaller hfound))
  | some inv =>
  have hget : w.data.invites.get ⟨i⟩ = some inv := Ledger.expire_some w.ledger hfound
  refine .call (fun present w₅ h₅ => .call (fun sessionId w₆ h₆ => ?_))
  have l₆ := (aside_step (c := .newUuid) trivial h₆).trans
    ((aside_step (c := .isPresent ⟨dog⟩ (κ 0)) trivial h₅).trans l₄)
  obtain rfl : w.data.presence.isPresent ⟨dog⟩ (κ 0) = present := by
    rw [← scene_presence (c := .utcNow) trivial h₁, ← scene_presence (c := .policiesEnsure ⟨dog⟩) trivial h₂,
      ← expireDue_presence h₃, ← scene_presence (c := .invitesGet ⟨i⟩) trivial h₄]
    exact congrArg Prod.fst h₅
  obtain rfl : w.nextUuid = sessionId := by
    rw [← (newUuid_step h₆).1, nextUuid_kept (c := .isPresent ..) (fun h => by cases h) h₅,
      nextUuid_kept (c := .invitesGet _) (fun h => by cases h) h₄,
      nextUuid_kept (c := .expireDue _) (fun h => by cases h) h₃,
      nextUuid_kept (c := .policiesEnsure _) (fun h => by cases h) h₂,
      nextUuid_kept (c := .utcNow) (fun h => by cases h) h₁]
  cases hcheck : acceptCheck inv ⟨dog⟩ (w.data.presence.isPresent ⟨dog⟩ (κ 0)) (κ 0) with
  | error e =>
    have ha : acceptInvite ⟨w.nextUuid⟩ inv ⟨dog⟩ (w.data.presence.isPresent ⟨dog⟩ (κ 0)) (κ 0) = some (.error e) := by
      unfold acceptInvite
      rw [hcheck]
    rw [ha]
    refine .done (hsame (.inr l₆) ▸ .refused (acceptThrough_unchecked hcaller hget (fun hc => ?_)))
    cases hcheck.symm.trans hc
  | ok u =>
  have hthrough : acceptThrough st w (κ 0) h i b = some (⟨dog⟩, inv) := by
    rw [acceptThrough_of_caller hcaller hget, hs, hcheck]
    rfl
  have hguards : (acceptThrough st w (κ 0) h i b).isSome := by
    rw [hthrough]
    rfl
  cases ha : acceptInvite ⟨w.nextUuid⟩ inv ⟨dog⟩ (w.data.presence.isPresent ⟨dog⟩ (κ 0)) (κ 0) with
  | none =>
    refine .done (hsame (.inr l₆) ▸ .panicked hguards (acceptedSession_none hcaller hget (fun _ _ _ ha' _ _ => ?_)))
    cases ha.symm.trans ha'
  | some checked =>
  cases checked with
  | error e =>
    unfold acceptInvite at ha
    simp [hcheck, Option.bind_eq_some_iff] at ha
  | ok session =>
  dsimp only
  cases hmax : (seconds (asI64 (w.data.policies.current ⟨dog⟩).maxSessionSec)).bind (κ 0).plus with
  | none =>
    refine .done (hsame (.inr l₆) ▸ .panicked hguards (acceptedSession_none hcaller hget (fun _ _ _ _ hmax' _ => ?_)))
    cases hmax.symm.trans hmax'
  | some maxEndAt =>
  cases hseg : (seconds (asI64 (w.data.policies.current ⟨dog⟩).segmentSec)).bind (κ 0).plus with
  | none =>
    refine .done (hsame (.inr l₆) ▸ .panicked hguards (acceptedSession_none hcaller hget (fun _ _ _ _ _ hseg' => ?_)))
    cases hseg.symm.trans hseg'
  | some segmentDeadlineAt =>
  have hx := acceptedSession_eq hcaller hget hs ha hmax hseg
  refine .call (fun _ w₇ h₇ => .call (fun inserted w₈ h₈ => ?_))
  have s₇ : w₇.ledger.sessions = w.data.sessions := by
    rw [close_step h₇, l₆]
    rfl
  have h₈ := sessionsInsert_step h₈
  rw [s₇] at h₈
  cases inserted with
  | error e =>
    obtain ⟨hclash, l₈⟩ := h₈
    have s₈ : w₈.data.sessions = w.data.sessions := (congrArg Ledger.sessions l₈).trans s₇
    exact .done (s₈ ▸ .clashed hx hclash)
  | ok u =>
    obtain ⟨s, hins, l₈⟩ := h₈
    refine save_twice_yields (fun _ w₉ l₉ => publishMany_yields (fun _ w₁₀ l₁₀ => .done ?_))
    have s₁₀ : w₁₀.data.sessions = s := by
      rw [show w₁₀.data.sessions = w₁₀.ledger.sessions from rfl, l₁₀, l₉, Ledger.save_sessions, Ledger.save_sessions,
        l₈]
      rfl
    exact s₁₀ ▸ .began hx hins

/-- **An Again handled alone**, its reply and the sessions it leaves. -/
theorem again_yields (h : HeaderMap) (i : Uuid) (b : JsonBody) :
    (again st h i b).Yields (exec st) κ w (fun r w' => Renewed st w (κ 2) h i b r w'.data.sessions) := by
  unfold again
  simp only [sessionsGet, policiesGet, policiesEnsure, utcNow, sessionsUpdate, sql, Prog.op_bind, Prog.pure_eq]
  have hnone : jsonCaller st h b = none → ∀ dog x, jsonCaller st h b = some dog →
      w.data.sessions.get ⟨i⟩ = some x → ¬ x.hasDog dog := by
    rintro hn dog x hd
    rw [hn] at hd
    cases hd
  cases hd : st.formats.parseUuid b.dogId with
  | none => exact .done (.refused (hnone (by unfold jsonCaller; rw [hd])))
  | some dog =>
  cases ht : st.formats.parseUuid b.terminalId with
  | none => exact .done (.refused (hnone (by unfold jsonCaller; rw [hd, ht])))
  | some terminal =>
  dsimp only
  cases hv : verifyDevice st h ⟨terminal⟩ ⟨dog⟩ with
  | error s => exact .done (.refused (hnone (jsonCaller_denied hd ht hv)))
  | ok u =>
  have hcaller := jsonCaller_eq hd ht hv
  refine .call (fun found w₁ h₁ => ?_)
  have l₁ := aside_step (c := .sessionsGet ⟨i⟩) trivial h₁
  have s₁ : w₁.data.sessions = w.data.sessions := congrArg Ledger.sessions l₁
  have hfound : w.data.sessions.get ⟨i⟩ = found := congrArg Prod.fst h₁
  cases found with
  | none =>
    refine .done (s₁ ▸ .refused (fun d x _ hx => ?_))
    cases hfound.symm.trans hx
  | some x =>
  dsimp only
  split
  · rename_i hparty
    simp only [Bool.and_eq_true, decide_eq_true_eq, ne_eq] at hparty
    refine .done (s₁ ▸ .refused (fun d y hd' hy => ?_))
    cases hcaller.symm.trans hd'
    cases hfound.symm.trans hy
    exact not_or.2 hparty
  rename_i hparty
  simp only [Bool.and_eq_true, decide_eq_true_eq, not_and_or, ne_eq, not_not] at hparty
  refine .call (fun pol w₂ h₂ => .call (fun now w₃ h₃ => ?_))
  have l₂ := (aside_step (c := .policiesEnsure ⟨dog⟩) trivial h₂).trans l₁
  have l₃ := (aside_step (c := .utcNow) trivial h₃).trans l₂
  have s₃ : w₃.data.sessions = w.data.sessions := congrArg Ledger.sessions l₃
  obtain rfl : κ 2 = now := congrArg Prod.fst h₃
  obtain rfl : pol = w.data.policies.current ⟨dog⟩ :=
    (ensure_step h₂).trans (congrFun (congrArg Ledger.policies l₁) _)
  cases hext : extendSegment (κ 2) (w.data.policies.current ⟨dog⟩).segmentSec x.maxEndAt with
  | none => exact .done (s₃ ▸ .panicked hcaller hfound hparty hext)
  | some deadline =>
  refine .call (fun updated w₄ h₄ => ?_)
  obtain ⟨hup, l₄⟩ := update_step h₄
  rw [show w₃.ledger.sessions = w.data.sessions from s₃] at hup l₄
  obtain rfl : updated = some { x with segmentDeadlineAt := deadline } := by
    rw [hup, SessionStore.update_fst, hfound]
    rfl
  refine save_yields (fun _ w₅ l₅ => .done ?_)
  have s₅ : w₅.data.sessions = (w.data.sessions.update ⟨i⟩ (fun s => { s with segmentDeadlineAt := deadline })).2 := by
    rw [show w₅.data.sessions = w₅.ledger.sessions from rfl, l₅, Ledger.save_sessions, l₄]
    rfl
  exact s₅ ▸ .extended hcaller hfound hparty hext

end
end CanisLink
