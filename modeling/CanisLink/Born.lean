import CanisLink.Handling
/-!
# Born — the policies a session is born under

`accept_invite_handler` asks the policy of the acceptor and not that of the caller.  While every caller whose invite is
accepted is allowed contact, every session is born with both dogs allowed, over every run of requests handled one at a
time.
-/
namespace CanisLink

/-- Contact is allowed for the dog at the instant. -/
def Allowed (w : World) (d : DogId) (now : DateTime) : Prop := socialAllowed (w.data.policies.current d) now = .ok ()

instance (w : World) (d : DogId) (now : DateTime) : Decidable (Allowed w d now) :=
  inferInstanceAs (Decidable (_ = _))

/-- **The caller is allowed too**: contact is allowed for the caller of an invite when all guards of its accept pass. -/
def CallerAllowed (st : AppState) (s : Server) (a : Arrival) : Prop :=
  ∀ di ∈ acceptedBy st s a, Allowed s.world di.2.fromDog (a.clock 0)

instance (st : AppState) (s : Server) (a : Arrival) : Decidable (CallerAllowed st s a) :=
  inferInstanceAs (Decidable (∀ _ ∈ _, _))

/-- A session that is there after the request and was not before. -/
def BornIn (st : AppState) (s : Server) (a : Arrival) (x : SessionRecord) : Prop :=
  ∃ id, s.world.data.sessions.get id = none ∧ (s.serve st a).world.data.sessions.get id = some x

section

variable {st : AppState} {s : Server} {a : Arrival} {x : SessionRecord}

/-- **The session a request begins** is between the caller and the acceptor of an invite whose accept passed all guards,
and no policy has changed. -/
theorem born_through (h : BornIn st s a x) :
    (s.serve st a).world.data.policies.current = s.world.data.policies.current ∧
    ∃ dog inv, acceptedBy st s a = some (dog, inv) ∧ x.dogA = inv.fromDog ∧ x.dogB = inv.toDog := by
  obtain ⟨id, hnone, hsome⟩ := h
  have hh := Server.serve_handled st s a
  rcases hh.session hsome with ⟨y, hy, -⟩ | ⟨hd, i, b, dog, inv, hreq, through, begins, -⟩
  · rw [hnone] at hy
    cases hy
  · refine ⟨hh.policies_eq (by rw [hreq]; rfl), dog, inv, ?_, begins.dogA, begins.dogB⟩
    unfold acceptedBy
    rw [hreq]
    exact through

theorem acceptedBy_some {dog : DogId} {inv : Invite} (h : acceptedBy st s a = some (dog, inv)) :
    Allowed s.world dog (a.clock 0) ∧ inv.toDog = dog := by
  unfold acceptedBy at h
  split at h
  · obtain ⟨-, -, hallowed, hto⟩ := acceptThrough_some h
    exact ⟨hallowed, hto⟩
  · cases h

/-- One request: a session it begins has both dogs allowed, before and after. -/
theorem born_step (hc : CallerAllowed st s a) (h : BornIn st s a x) {d : DogId} (hd : x.hasDog d) :
    Allowed s.world d (a.clock 0) ∧ Allowed (s.serve st a).world d (a.clock 0) := by
  obtain ⟨hpol, dog, inv, hthrough, hA, hB⟩ := born_through h
  obtain ⟨hacceptor, hto⟩ := acceptedBy_some hthrough
  have hallowed : Allowed s.world d (a.clock 0) := by
    rcases hd with rfl | rfl
    · exact hA ▸ hc (dog, inv) hthrough
    · rw [hB, hto]
      exact hacceptor
  refine ⟨hallowed, ?_⟩
  unfold Allowed
  rw [hpol]
  exact hallowed

end

/-- **No session is born against a policy** while every accept finds its caller allowed: over every run, both dogs of a
session are allowed contact at the instant it is born, and neither is stopped. -/
theorem born_allowed (st : AppState) (s : Server) (before : List Arrival) (a : Arrival) (after : List Arrival)
    (hm : s.Meets st (CallerAllowed st) (before ++ a :: after)) (x : SessionRecord)
    (hx : BornIn st (s.serveAll st before) a x)
    (d : DogId) (hd : x.hasDog d) :
    Allowed (s.serveAll st before).world d (a.clock 0) ∧ Allowed (s.serveAll st (before ++ [a])).world d (a.clock 0) ∧
      ((s.serveAll st before).world.data.policies.current d).emergencyStop = false := by
  obtain ⟨hbefore, hafter⟩ := born_step (Server.Meets.append hm).2.1 hx hd
  rw [Server.serveAll_append]
  exact ⟨hbefore, hafter, not_stopped_of_allowed hbefore⟩

/-- Dog 1 has called dog 2, and dog 2 accepts. -/
def accept2 : Arrival := ⟨.acceptInvite (device 2) 0 (jsonBody 2), fun _ => noon⟩

theorem born_allowed_accept : Allowed ringing ⟨1⟩ noon :=
  (born_allowed bench ⟨ringing, noon⟩ [] accept2 [] (by decide +kernel) firstSession
    ⟨⟨1⟩, by decide +kernel, by decide +kernel⟩ ⟨1⟩ (.inl rfl)).1

/-- The steward stops dog 1 while its invite rings. -/
def stop1 : Arrival := ⟨.stewardEstop (some "Steward s") ⟨1⟩ true, fun _ => noon⟩

/-- **A session is born with a stopped dog.** -/
theorem born_stopped : ¬ ∀ (st : AppState) (s : Server) (before : List Arrival) (a : Arrival) (x : SessionRecord),
    BornIn st (s.serveAll st before) a x → ∀ d, x.hasDog d →
      Allowed (s.serveAll st before).world d (a.clock 0) ∧
        ((s.serveAll st before).world.data.policies.current d).emergencyStop = false := by
  intro h
  have := h bench ⟨ringing, noon⟩ [stop1] accept2 firstSession ⟨⟨1⟩, by decide +kernel, by decide +kernel⟩ ⟨1⟩
    (.inl rfl)
  revert this
  decide +kernel

end CanisLink
