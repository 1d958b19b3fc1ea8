import RoomAudio.Player.Perform

/-!
# Transcripts of computations

What a computation adds to the exchanges of its session. A computation never takes an exchange
back, so whatever it does is told by the exchanges it adds together with its result.

## Main definitions

* `Run.Yields` — a statement about the result of a computation and the exchanges it adds, wherever
  it begins.
* `Exchange.failure?` — the failure of an exchange.
-/

namespace RoomAudio

variable {σ α β : Type}

def Exchange.failure? (x : Exchange) : Option Failure :=
  match x.answer with
  | .ok _ => none
  | .error failure => some failure

/-! ## Computations and their exchanges -/

namespace Run

theorem bind_apply (x : Run σ α) (f : α → Run σ β) (s : Session σ) :
    (x >>= f) s = match x s with
      | (.ok a, t) => f a t
      | (.error failure, t) => (.error failure, t) := by
  change (match x s with | (r, t) => ExceptT.bindCont f r t) = _
  rcases x s with ⟨_ | _, t⟩ <;> rfl

theorem within_apply (x : Run σ α) (context : String) (s : Session σ) :
    Run.within x context s = ((x s).1.mapError (·.within context), (x s).2) := rfl

/-- Wherever `x` begins, it only adds exchanges, and its result together with them satisfies
`post`. -/
def Yields (x : Run σ α) (post : Except Failure α → List Exchange → Prop) : Prop :=
  ∀ s, ∃ added, (x s).2.exchanges = s.exchanges ++ added ∧ post (x s).1 added

namespace Yields

variable {x : Run σ α} {post : Except Failure α → List Exchange → Prop}

theorem mono {weaker : Except Failure α → List Exchange → Prop} (h : x.Yields post)
    (imp : ∀ r l, post r l → weaker r l) : x.Yields weaker := by
  intro s
  obtain ⟨added, grows, holds⟩ := h s
  exact ⟨added, grows, imp _ _ holds⟩

theorem pure {a : α} (h : post (.ok a) []) : (Pure.pure a : Run σ α).Yields post :=
  fun _ => ⟨[], (List.append_nil _).symm, h⟩

theorem throw {failure : Failure} (h : post (.error failure) []) :
    (MonadExcept.throw failure : Run σ α).Yields post :=
  fun _ => ⟨[], (List.append_nil _).symm, h⟩

/-- Exchanges of the two parts are added one after the other. -/
theorem bind {f : α → Run σ β} {after : Except Failure β → List Exchange → Prop}
    (first : x.Yields post)
    (next : ∀ a l, post (.ok a) l → (f a).Yields fun r l' => after r (l ++ l'))
    (failed : ∀ failure l, post (.error failure) l → after (.error failure) l) :
    (x >>= f).Yields after := by
  intro s
  obtain ⟨added, grows, holds⟩ := first s
  rw [bind_apply]
  rcases hx : x s with ⟨failure | a, t⟩ <;> rw [hx] at grows holds
  · exact ⟨added, grows, failed _ _ holds⟩
  · obtain ⟨more, grows', holds'⟩ := next a added holds t
    exact ⟨added ++ more, by rw [grows', grows, List.append_assoc], holds'⟩

theorem within {context : String}
    (h : x.Yields fun r l => post (r.mapError (·.within context)) l) :
    (Run.within x context).Yields post := by
  intro s
  rw [within_apply]
  exact h s

/-- A loop keeps whatever its rounds keep, if that survives putting rounds together. -/
theorem forM {ι : Type} {items : List ι} {f : ι → Run σ Unit}
    {post : Except Failure Unit → List Exchange → Prop} (nil : post (.ok ()) [])
    (append : ∀ r l l', post (.ok ()) l → post r l' → post r (l ++ l'))
    (each : ∀ a ∈ items, (f a).Yields post) : (items.forM f).Yields post := by
  induction items with
  | nil => exact Yields.pure nil
  | cons a items ih =>
    refine Yields.bind (each a (by simp)) (fun _ l first => ?_) (fun _ _ failed => failed)
    have rest := ih fun b hb => each b (by simp [hb])
    exact rest.mono fun r l' holds => append r l l' first holds

end Yields

end Run

namespace Environment

variable (e : Environment σ)

/-- A command adds one exchange. -/
theorem yields_send {c : Command} {post : Except Failure c.Answer → List Exchange → Prop}
    (h : ∀ answer, post answer [⟨c, answer⟩]) : (e.send c).Yields post :=
  fun _ => ⟨_, rfl, h _⟩

/-- Looking at the signal adds nothing. -/
theorem yields_checkSignal {post : Except Failure Unit → List Exchange → Prop}
    (ok : post (.ok ()) []) (tripped : ∀ c : Cancellation, post (.error (.because c.message)) []) :
    e.checkSignal.Yields post := by
  intro s
  refine ⟨[], ?_, ?_⟩ <;> simp only [checkSignal] <;> split
  · exact (List.append_nil _).symm
  · exact (List.append_nil _).symm
  · exact tripped _
  · exact ok

/-- The questions of a waiting: each of them but the last one is answered by another state than the
wanted one, and after the last one the waiting is over. -/
theorem yields_poll {post : Except Failure Unit → List Exchange → Prop} {state : PlaybackState}
    {label : String} {interval deadline : Nat} {pos : 0 < interval}
    (broken : ∀ failure, post (.error failure) [⟨.playbackState, .error failure⟩])
    (reached : ∀ report, state.isNamedBy report = true →
      post (.ok ()) [⟨.playbackState, .ok report⟩])
    (late : ∀ report, state.isNamedBy report = false →
      post (.error (.because (timeoutMessage state label))) [⟨.playbackState, .ok report⟩])
    (tripped : ∀ report, state.isNamedBy report = false → ∀ c : Cancellation,
      post (.error (.because c.message)) [⟨.playbackState, .ok report⟩])
    (again : ∀ report r l, state.isNamedBy report = false → post r l →
      post r (⟨.playbackState, .ok report⟩ :: l)) :
    Run.Yields (e.poll state label interval deadline pos) post := by
  intro s
  fun_induction Environment.poll e state label interval deadline pos s with
  | case1 s failure world => exact ⟨_, rfl, broken failure⟩
  | case2 s report world _ exchanges named => exact ⟨_, rfl, reached report named⟩
  | case3 s report world _ exchanges other => exact ⟨_, rfl, late report (by simpa using other)⟩
  | case4 s report world _ exchanges other asked _ begun cancellation =>
    exact ⟨_, rfl, tripped report (by simpa using other) cancellation⟩
  | case5 s report world _ exchanges other asked _ begun rested _ ih =>
    obtain ⟨added, grows, holds⟩ := ih
    refine ⟨⟨.playbackState, .ok report⟩ :: added, by simpa [exchanges] using grows, ?_⟩
    exact again report _ _ (by simpa using other) holds

/-- A waiting is a polling with some deadline. -/
theorem yields_waitFor {post : Except Failure Unit → List Exchange → Prop} {state : PlaybackState}
    {label : String} {timeout : Nat}
    (h : ∀ deadline, Run.Yields (e.poll state label pollInterval deadline pollInterval_pos) post) :
    (e.waitFor state label timeout).Yields post :=
  fun s => h _ (e.look s)

end Environment

end RoomAudio
