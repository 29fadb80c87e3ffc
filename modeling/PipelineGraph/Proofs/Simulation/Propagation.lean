import PipelineGraph.Proofs.Simulation.Soundness

/-!
# How a request to cancel is passed on

A request goes from a gathering to its children and from a task to what it waits for. What each part of
it keeps, the whole request keeps, however far it goes and whether it goes too deep or not.
-/

namespace PipelineGraph.Simulation

variable {P A : Type}

namespace Scheduler

variable {s s' : Scheduler P A} {b i id : FutureId} {held : FutureId → Prop} {Q : Scheduler P A → Prop}
  {ask : FutureId → Scheduler P A → Reply × Scheduler P A}

/-- What each request keeps, requests to several futures keep. -/
theorem askEach_induction {ids : List FutureId} (hask : ∀ id ∈ ids, ∀ s, Q s → Q (ask id s).2) (h : Q s) :
    Q (askEach ask ids s).2 := by
  induction ids generalizing s with
  | nil => exact h
  | cons id rest ih =>
    have hfirst := hask id List.mem_cons_self s h
    have hrest := ih (fun id' hid' => hask id' (List.mem_cons_of_mem _ hid')) hfirst
    rw [askEach]
    split
    · next hask' => rwa [hask'] at hfirst
    · next hask' =>
      rw [hask'] at hrest
      split
      · next hrest' => rwa [hrest'] at hrest
      · exact hrest

/-- What each part of a request keeps, the whole request keeps. A request goes from a gathering to its
children and from a task to what it waits for, so it stays within `T`. -/
theorem cancelWithin_induction_on {T : FutureId → Prop}
    (hsleep : ∀ s id, Q s → T id → s.kind? id = some .sleep → s.ending? id = none →
      Q (s.complete id (.error .cancelled)))
    (hask : ∀ s s' id g, Q s → Q s' → T id → s.kind? id = some (.gathering g) →
      Q (s'.modifyGathering id fun g => { g with cancelRequested := true }))
    (hmark : ∀ s s' id t, Q s → Q s' → T id → s.kind? id = some (.task t) → Q (s'.markCancel id))
    (hchild : ∀ s id g, Q s → T id → s.kind? id = some (.gathering g) → ∀ c ∈ g.children, T c)
    (hwaiter : ∀ s id t source, Q s → T id → s.kind? id = some (.task t) → t.waiter = some source →
      T source)
    (room : Nat) (h : Q s) (id : FutureId) (hid : T id) : Q (cancelWithin room id s).2 := by
  induction room generalizing id s with
  | zero => exact h
  | succ room ih =>
    simp only [cancelWithin]
    split
    · exact h
    · next f hf =>
      split
      · exact h
      · next hlive =>
        split
        · next hk =>
          have hending : s.ending? id = none := by
            simpa [ending?, hf] using hlive
          exact hsleep s id h hid (kind?_eq_some_iff.2 ⟨f, hf, hk⟩) hending
        · next g hk =>
          have hkind := kind?_eq_some_iff.2 ⟨f, hf, hk⟩
          have hchildren : Q (askEach (cancelWithin room) g.children s).2 :=
            askEach_induction (fun c hc s' h' => ih h' c (hchild s id g h hid hkind c hc)) h
          split
          · next hasked =>
            rw [hasked] at hchildren
            exact hask s _ id g h hchildren hid hkind
          · exact hchildren
        · next t hk =>
          have hkind := kind?_eq_some_iff.2 ⟨f, hf, hk⟩
          split
          · exact hmark s s id t h h hid hkind
          · next source hsource =>
            have hdone := ih h source (hwaiter s id t source h hid hkind hsource)
            split
            · next hrefused =>
              rw [hrefused] at hdone
              exact hmark s _ id t h hdone hid hkind
            · exact hdone

/-- What each part of a request keeps, wherever that is, the whole request keeps. -/
theorem cancelWithin_induction
    (hsleep : ∀ s id, Q s → s.kind? id = some .sleep → s.ending? id = none →
      Q (s.complete id (.error .cancelled)))
    (hask : ∀ s id, Q s → Q (s.modifyGathering id fun g => { g with cancelRequested := true }))
    (hmark : ∀ s id, Q s → Q (s.markCancel id)) (room : Nat) (h : Q s) (id : FutureId) :
    Q (cancelWithin room id s).2 :=
  cancelWithin_induction_on (T := fun _ => True) (fun s id h _ => hsleep s id h)
    (fun _ s' id _ _ h _ _ => hask s' id h) (fun _ s' id _ _ h _ _ => hmark s' id h)
    (fun _ _ _ _ _ _ _ _ => trivial) (fun _ _ _ _ _ _ _ _ => trivial) room h id trivial

/-- A request to cancel, wherever it goes, keeps a scheduler sound. -/
theorem Sound.cancelWithin (room : Nat) (h : Sound b held s) (id : FutureId) :
    Sound b held (cancelWithin room id s).2 :=
  cancelWithin_induction (fun _ _ h hk _ => h.complete (Or.inr hk) fun hcontra => by cases hcontra)
    (fun _ _ h => h.requestCancel) (fun _ _ h => h.modifyTask _) room h id

/-- A request to cancel keeps a scheduler sound. -/
theorem Sound.cancel (h : Sound b held s) (id : FutureId) : Sound b held (s.cancel id).2 :=
  h.cancelWithin maxRequestDepth id

/-! ## Several requests -/

/-- The scheduler when each of several futures has been asked to cancel, whatever the answers. -/
def cancelAll (s : Scheduler P A) (ids : List FutureId) : Scheduler P A :=
  ids.foldl (fun s id => (s.cancel id).2) s

/-- Requests to cancel several futures keep a scheduler sound. -/
theorem Sound.cancelAll (h : Sound b held s) (ids : List FutureId) : Sound b held (s.cancelAll ids) := by
  induction ids generalizing s with
  | nil => exact h
  | cons id rest ih => exact ih (h.cancel id)

/-- What is asked after a first request that does not go too deep. -/
theorem askEach_cons_of_ne {id : FutureId} {rest : List FutureId} (h : (ask id s).1 ≠ .tooDeep) :
    (askEach ask (id :: rest) s).2 = (askEach ask rest (ask id s).2).2 ∧
      ((askEach ask (id :: rest) s).1 = .tooDeep ↔ (askEach ask rest (ask id s).2).1 = .tooDeep) := by
  cases hfirst : ask id s with
  | mk reply s₁ =>
    cases hlast : askEach ask rest s₁ with
    | mk answer s₂ =>
      rw [hfirst] at h
      cases reply <;> cases answer <;> simp_all [askEach]

/-- After a first request that goes too deep nothing is asked. -/
theorem askEach_cons_of_eq {id : FutureId} {rest : List FutureId} (h : (ask id s).1 = .tooDeep) :
    askEach ask (id :: rest) s = (.tooDeep, (ask id s).2) := by
  cases hfirst : ask id s with
  | mk reply s₁ =>
    rw [hfirst] at h
    cases h
    simp only [askEach, hfirst]

/-- What has ended refuses a request. -/
theorem cancel_of_ended (h : s.ending? id ≠ none) : s.cancel id = (.refused, s) := by
  obtain ⟨f, hf, hended⟩ : ∃ f, s.future? id = some f ∧ f.ending.isSome = true := by
    cases hf : s.future? id with
    | none => simp [ending?, hf] at h
    | some f => exact ⟨f, rfl, by simpa [ending?, hf, Option.isSome_iff_ne_none] using h⟩
  simp [cancel, maxRequestDepth, cancelWithin, hf, hended]

/-- Futures that have ended refuse a request. -/
theorem cancelEach_of_ended {ids : List FutureId} (h : ∀ id ∈ ids, s.ending? id ≠ none) :
    s.cancelEach ids = (.refused, s) := by
  induction ids with
  | nil => rfl
  | cons id rest ih =>
    obtain ⟨hid, hrest⟩ := List.forall_mem_cons.1 h
    have hlast : askEach (fun id s => s.cancel id) rest s = (.refused, s) := ih hrest
    simp only [cancelEach, askEach, cancel_of_ended hid, hlast]

/-- Requests to several futures are requests to the first of them, and to all unless one goes too deep. -/
theorem exists_cancelEach (s : Scheduler P A) (ids : List FutureId) :
    ∃ asked, asked <+: ids ∧ (s.cancelEach ids).2 = s.cancelAll asked ∧
      ((s.cancelEach ids).1 ≠ .tooDeep → asked = ids) := by
  induction ids generalizing s with
  | nil => exact ⟨[], List.prefix_refl [], rfl, fun _ => rfl⟩
  | cons id rest ih =>
    by_cases hfirst : (s.cancel id).1 = .tooDeep
    · have hsame : s.cancelEach (id :: rest) = (.tooDeep, (s.cancel id).2) := askEach_cons_of_eq hfirst
      rw [hsame]
      exact ⟨[id], List.prefix_append [id] rest, rfl, fun hcontra => absurd rfl hcontra⟩
    · obtain ⟨hstate, hreply⟩ : (s.cancelEach (id :: rest)).2 = ((s.cancel id).2.cancelEach rest).2 ∧
          ((s.cancelEach (id :: rest)).1 = .tooDeep ↔ ((s.cancel id).2.cancelEach rest).1 = .tooDeep) :=
        askEach_cons_of_ne hfirst
      obtain ⟨asked, hprefix, hsame, hall⟩ := ih (s.cancel id).2
      refine ⟨id :: asked, List.cons_prefix_cons.2 ⟨rfl, hprefix⟩, hstate.trans hsame, fun hnot => ?_⟩
      rw [hall fun hcontra => hnot (hreply.2 hcontra)]

end Scheduler

end PipelineGraph.Simulation
