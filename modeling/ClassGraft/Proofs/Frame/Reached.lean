import ClassGraft.Proofs.Frame.Consistency

/-!
# Instructions that are reached

Every instruction with a frame was visited (`Flow.covers_settle`), and a visit does not let control
fall off the end.  So the last instruction that is reached never goes on
(`Body.goesOn_of_analyze`), whatever the hierarchy of classes is.
-/

namespace ClassGraft

namespace Flow

variable {course : Course} {flow flow' : Flow} {Q : Nat → Prop}

/-- Whether every instruction with a frame is pending or has a property. -/
structure Covers (flow : Flow) (size : Nat) (Q : Nat → Prop) : Prop where
  frames : flow.frames.size = size
  listed : flow.IsListed
  reached : ∀ index, flow.frameAt? index ≠ none → index ∈ flow.pending ∨ Q index

variable {size : Nat}

theorem Covers.mono {Q' : Nat → Prop} (hc : flow.Covers size Q) (h : ∀ index, Q index → Q' index) :
    flow.Covers size Q' :=
  ⟨hc.frames, hc.listed, fun index hi => (hc.reached index hi).imp_right (h index)⟩

/-- The height of the stack does not matter to what is covered. -/
theorem Covers.withHeight (hc : flow.Covers size Q) (height : Nat) :
    Covers { flow with height := height } size Q :=
  ⟨hc.frames, hc.listed, hc.reached⟩

theorem covers_start (size : Nat) (Q : Nat → Prop) : (start size).Covers size Q := by
  refine ⟨Array.size_replicate, fun index h => ?_, fun index h => ?_⟩
  · simp only [start, Array.getD_eq_getD_getElem?, Array.getElem?_replicate] at h
    split_ifs at h
    · simp at h
    · simp at h
  · exact absurd (frameAt?_start size index) h

theorem covers_set (hc : flow.Covers size Q) (target : Nat) (frame : Frame) :
    (flow.set target frame).Covers size Q := by
  refine ⟨?_, isListed_set hc.listed target frame, fun index hi => ?_⟩
  · rw [frames_set, Array.size_setIfInBounds, hc.frames]
  · by_cases he : target = index
    · rw [← he]
      exact .inl (target_mem_pending_set hc.listed target frame)
    · have hsame : (flow.set target frame).frameAt? index = flow.frameAt? index := by
        unfold frameAt?
        rw [frames_set, Array.getElem?_setIfInBounds, if_neg he]
      rw [hsame] at hi
      exact (hc.reached index hi).imp_left (mem_pending_set flow target frame)

theorem covers_send (hc : flow.Covers size Q) {origin target : Nat} {sent : Frame}
    (h : flow.send course origin target sent = .ok flow') : flow'.Covers size Q := by
  obtain ⟨fitted, -, h⟩ := arrive_eq_ok.mp (Except.mapError_eq_ok.mp h)
  split at h
  · subst h
    exact covers_set hc target fitted
  · obtain ⟨merged, -, rfl⟩ := h
    split_ifs
    · exact hc
    · exact covers_set hc target merged

theorem covers_visit (hc : flow.Covers size Q) {origin : Nat} {step : Step} {before : Frame}
    (h : flow.visit course origin step before = .ok flow') : flow'.Covers size Q :=
  keeps_of_visit (fun _ height hc => hc.withHeight height)
    (fun _ _ _ _ _ _ _ hc hsend => covers_send hc hsend) hc h

/-- Whether control can go on from an instruction, if it goes on at all. -/
def GoesOn (course : Course) (index : Nat) : Prop :=
  ∀ step, course.scene.steps[index]? = some step → step.instruction.fallsThrough = true →
    index + 1 ≠ course.scene.steps.size

/-- A turn covers the instruction that it takes off the list. -/
theorem Turn.covers (hc : flow.Covers size (GoesOn course)) (h : Turn course flow flow') :
    flow'.Covers size (GoesOn course) := by
  cases h with
  | @visit origin rest frames isPending height step before _ hstep hbefore hvisit =>
    -- the instruction that is taken off the list is the only one that is not covered any more
    have hpop : Covers ⟨frames, rest, isPending.setIfInBounds origin false, height⟩ size
        fun index => GoesOn course index ∨ index = origin := by
      refine ⟨hc.frames, isListed_pop hc.listed, fun index hi => ?_⟩
      rcases hc.reached index hi with hin | hgoes
      · exact (List.mem_cons.mp hin).elim (fun he => .inr (.inr he)) .inl
      · exact .inr (.inl hgoes)
    refine (covers_visit hpop hvisit).mono fun index hi => hi.elim id ?_
    rintro rfl other hother
    obtain rfl := Option.some.inj (hstep.symm.trans hother)
    exact ne_size_of_visit hvisit
  | @skip origin rest frames isPending height hnone =>
    refine ⟨hc.frames, isListed_pop hc.listed, fun index hi => ?_⟩
    refine (hc.reached index hi).elim (fun hin => ?_) .inr
    refine (List.mem_cons.mp hin).elim (fun he => .inr ?_) .inl
    subst he
    obtain ⟨before, hbefore⟩ := Option.ne_none_iff_exists'.mp hi
    exact fun step hstep => absurd hbefore (hnone step before hstep)

/-- In the end every instruction with a frame was visited. -/
theorem covers_settle {fuel : Nat} (hc : flow.Covers size (GoesOn course))
    (h : flow.settle course fuel = .ok flow') : flow'.Covers size (GoesOn course) ∧
      flow'.pending = [] :=
  keeps_of_settle (fun _ _ hc hturn => hturn.covers hc) hc h

end Flow

/-- Control does not fall off the end from an instruction that is reached. -/
theorem Body.goesOn_of_analyze {body : Body} {head : MethodHead} {pool : Pool}
    {hierarchy : Hierarchy} {analysis : Analysis}
    (h : body.analyze head pool hierarchy = .ok analysis) :
    analysis.frames.size = body.steps.length ∧ ∀ (index : Nat) step before,
      body.steps[index]? = some step → analysis.frames[index]? = some (some before) →
        step.instruction.fallsThrough = true → index + 1 ≠ body.steps.length := by
  obtain ⟨-, entry, frames, handlers, first, last, -, -, -, hfirst, hlast, -, -, rfl⟩ :=
    analyze_eq_ok.mp h
  have hstart := Flow.covers_start body.steps.length (Flow.GoesOn
    ⟨⟨pool, hierarchy, head, body.steps.toArray, body.positions⟩, handlers,
      framesByIndex body.positions frames⟩)
  obtain ⟨hcovers, hnil⟩ := Flow.covers_settle (Flow.covers_send hstart hfirst) hlast
  refine ⟨hcovers.frames, fun index step before hstep hbefore => ?_⟩
  have hreached : last.frameAt? index ≠ none := by
    rw [Flow.frameAt?_eq_some.mpr hbefore]
    simp
  have hgoes := (hcovers.reached index hreached).resolve_left (by simp [hnil])
  have hends := hgoes step (by rw [List.getElem?_toArray, hstep])
  rwa [List.size_toArray] at hends

end ClassGraft
