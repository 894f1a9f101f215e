import EventChains.Proofs.Trace.FlowOrder
import EventChains.Timeline
import Mathlib

/-!
# Flows that cannot be added

A call for a flow that answers with an error leaves the trace as it was, unless it is the first call
for a flow without a name between two events of the trace: that one spends a number
(`SpendsNumber`), and later flows get other numbers than without it (`addFlow_error`).
-/

namespace EventChains.Trace

variable {trace : Trace} {name : String} {source target : Nat}

/-- The flow has no name, both its events are in the trace, and no such flow was asked for
before. -/
def SpendsNumber (trace : Trace) (name : String) (source target : Nat) : Prop :=
  name = "" ∧ (trace.get? source).isSome ∧ (trace.get? target).isSome ∧ "" ∉ trace.flowNames

instance (trace : Trace) (name : String) (source target : Nat) :
    Decidable (trace.SpendsNumber name source target) :=
  inferInstanceAs (Decidable (_ ∧ _ ∧ _ ∧ _))

/-- Two traces agree: they have the same events under the same ids in the same order, the same text
with any chains, and the same answer to every call for a flow. -/
structure Agree (a b : Trace) : Prop where
  events : a.get? = b.get?
  ids : a.ids = b.ids
  text : ∀ chains track, Timeline.text a chains track = Timeline.text b chains track
  answers : ∀ name source target,
    (a.addFlow name source target).2 = (b.addFlow name source target).2

/-- Two traces agree after all further calls. -/
def Interchangeable (a b : Trace) : Prop :=
  ∀ calls, Agree (a.performAll calls) (b.performAll calls)

theorem Interchangeable.refl (trace : Trace) : Interchangeable trace trace :=
  fun _ => ⟨rfl, rfl, fun _ _ => rfl, fun _ _ _ => rfl⟩

/-- A call for a flow without a name between two events of a trace registers the flow, and then
fails. -/
theorem addFlow_of_eq_empty {origin goal : Event} (hsource : trace.get? source = some origin)
    (htarget : trace.get? target = some goal) :
    trace.addFlow "" source target = (trace.registerFlow "", .error .emptyName) := by
  unfold addFlow
  rw [hsource, htarget]
  dsimp only
  rw [flowEvents_eq, dif_pos rfl]

/-- A call that answers with an error and spends no number changes nothing. -/
theorem addFlow_eq_self {fault : EventFault}
    (h : (trace.addFlow name source target).2 = .error fault)
    (hspends : ¬ trace.SpendsNumber name source target) :
    (trace.addFlow name source target).1 = trace := by
  cases hsource : trace.get? source with
  | none =>
      unfold addFlow
      rw [hsource]
  | some origin =>
      cases htarget : trace.get? target with
      | none =>
          unfold addFlow
          rw [hsource, htarget]
      | some goal =>
          by_cases hname : name = ""
          · subst hname
            have hregistered : "" ∈ trace.flowNames := by
              by_contra hnew
              exact hspends ⟨rfl, by rw [hsource]; rfl, by rw [htarget]; rfl, hnew⟩
            rw [addFlow_of_eq_empty hsource htarget]
            exact if_pos hregistered
          · rw [(addFlow_of_ne_empty hname hsource htarget).1] at h
            contradiction

theorem flowNumber_of_notMem (h : name ∉ trace.flowNames) :
    trace.flowNumber name = UInt64.ofNat trace.flowNames.length := by
  rw [flowNumber, List.idxOf_eq_length h]

/-- The next number of flows is another one after each flow that gets it. -/
theorem ofNat_succ_ne (n : Nat) : UInt64.ofNat (n + 1) ≠ UInt64.ofNat n := by
  intro h
  have h := congrArg UInt64.toNat h
  rw [UInt64.toNat_ofNat', UInt64.toNat_ofNat'] at h
  omega

/-- After a number is spent, the next new flow between the two events has another number than
without. -/
theorem not_interchangeable (hspends : trace.SpendsNumber name source target) :
    ¬ Interchangeable (trace.addFlow name source target).1 trace := by
  intro hsame
  obtain ⟨rfl, hsource, htarget, hnew⟩ := hspends
  obtain ⟨origin, hsource⟩ := Option.isSome_iff_exists.1 hsource
  obtain ⟨goal, htarget⟩ := Option.isSome_iff_exists.1 htarget
  rw [addFlow_of_eq_empty hsource htarget] at hsame
  have hregistered : trace.registerFlow "" = { trace with flowNames := trace.flowNames ++ [""] } :=
    if_neg hnew
  obtain ⟨fresh, hfresh⟩ := Infinite.exists_notMem_finset ("" :: trace.flowNames).toFinset
  rw [List.mem_toFinset, List.mem_cons, not_or] at hfresh
  obtain ⟨hname, hfresh⟩ := hfresh
  have grows := trace.grows_registerFlow ""
  obtain ⟨hadd, hstart, -⟩ := addFlow_of_ne_empty hname hsource htarget
  obtain ⟨hadd', hstart', -⟩ :=
    addFlow_of_ne_empty hname (grows.get?_eq hsource) (grows.get?_eq htarget)
  rw [size_registerFlow] at hadd' hstart'
  -- the start of the new flow has the same id with and without the call, and shows its number
  have hevents := congrFun (hsame [.addFlow fresh source target]).events trace.size
  change ((trace.registerFlow "").addFlow fresh source target).1.get? trace.size =
    (trace.addFlow fresh source target).1.get? trace.size at hevents
  rw [hadd', hadd, hstart', hstart] at hevents
  have hnumbers := congrArg Event.flow (Option.some.inj hevents)
  have hnumbers : (trace.registerFlow "").flowNumber fresh = trace.flowNumber fresh :=
    Option.some.inj hnumbers
  have hfresh' : fresh ∉ (trace.registerFlow "").flowNames := by
    rw [hregistered]
    simp [hname, hfresh]
  rw [flowNumber_of_notMem hfresh, flowNumber_of_notMem hfresh', hregistered] at hnumbers
  rw [List.length_append] at hnumbers
  exact ofNat_succ_ne _ hnumbers

/-- A call for a flow that answers with an error leaves the trace as it was, and all later calls as
they were without it, exactly if it spends no number. -/
theorem addFlow_error {fault : EventFault}
    (h : (trace.addFlow name source target).2 = .error fault) :
    ((trace.addFlow name source target).1 = trace ↔ ¬ trace.SpendsNumber name source target) ∧
      (Interchangeable (trace.addFlow name source target).1 trace ↔
        ¬ trace.SpendsNumber name source target) := by
  have hunchanged := addFlow_eq_self h
  have hinterchangeable : (trace.addFlow name source target).1 = trace →
      Interchangeable (trace.addFlow name source target).1 trace := by
    intro heq
    rw [heq]
    exact .refl trace
  refine ⟨⟨fun heq hspends => ?_, hunchanged⟩, ⟨fun hsame hspends => ?_, fun hspends => ?_⟩⟩
  · exact not_interchangeable hspends (hinterchangeable heq)
  · exact not_interchangeable hspends hsame
  · exact hinterchangeable (hunchanged hspends)

/-- A flow to an event that is not in the trace changes nothing. -/
theorem addFlow_error_unknown :
    let trace := loadsAt [.zero, .zero]
    (trace.addFlow "send" 0 7).2 = .error .unknownTarget ∧ ¬ trace.SpendsNumber "send" 0 7 ∧
      (trace.addFlow "send" 0 7).1 = trace ∧
      Interchangeable (trace.addFlow "send" 0 7).1 trace := by
  intro trace
  have herror : (trace.addFlow "send" 0 7).2 = .error .unknownTarget := rfl
  have hspends : ¬ trace.SpendsNumber "send" 0 7 := by decide
  obtain ⟨hunchanged, hinterchangeable⟩ := addFlow_error herror
  exact ⟨herror, hspends, hunchanged.2 hspends, hinterchangeable.2 hspends⟩

/-- After a flow without a name, which is not added, the first flow that is added has the number
one. Without that call it has the number zero. -/
theorem addFlow_unnamed_spends :
    let trace := loadsAt [.zero, .zero]
    let later := (trace.addFlow "" 0 1).1
    trace.Built ∧ (trace.addFlow "" 0 1).2 = .error .emptyName ∧
      ((later.addFlow "send" 0 1).1.get? 2).map (·.flow) = some (some 1) ∧
      ((trace.addFlow "send" 0 1).1.get? 2).map (·.flow) = some (some 0) ∧
      ¬ Interchangeable later trace := by
  intro trace later
  have hspent : ((later.addFlow "send" 0 1).1.get? 2).map (·.flow) = some (some 1) := by
    decide +kernel
  have hunspent : ((trace.addFlow "send" 0 1).1.get? 2).map (·.flow) = some (some 0) := by
    decide +kernel
  refine ⟨built_loadsAt _, rfl, hspent, hunspent, fun hsame => ?_⟩
  have hevents := congrFun (hsame [.addFlow "send" 0 1]).events 2
  change (later.addFlow "send" 0 1).1.get? 2 = (trace.addFlow "send" 0 1).1.get? 2 at hevents
  rw [hevents, hunspent] at hspent
  contradiction

end EventChains.Trace
