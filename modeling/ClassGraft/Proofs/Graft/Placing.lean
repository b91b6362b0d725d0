import ClassGraft.Proofs.Class.DeadCode
import ClassGraft.Proofs.Class.Refreshing
import ClassGraft.Proofs.Graft.Lifetimes
import ClassGraft.Proofs.Template.Repeating
import ClassGraft.Proofs.Template.Resolving

/-!
# Templates in bodies

What a template becomes in a body is settled by its lines, and comes out the same each time that it
is used (`Template.exists_marks_of_stepsIn`).  A label that it does not define stands for an
instruction that the body never has, whatever becomes of it, so no refresh goes by a jump to it that
control can reach (`ClassFile.exists_refusal_of_reaches`).
-/

namespace ClassGraft

/-! ### Jumps that lead nowhere -/

/-- Where a body was analyzed, every jump that control can reach leads to an instruction. -/
theorem Body.mem_of_reaches {body : Body} {head : MethodHead} {pool : Pool} {hierarchy : Hierarchy}
    {analysis : Analysis} (hn : body.IsNumbered)
    (h : body.analyze head pool hierarchy = .ok analysis) {index : Nat} {step : Step}
    (hreach : body.Reaches index) (hs : body.steps[index]? = some step) {target : Mark}
    (ht : target ∈ step.instruction.targets) : target ∈ body.steps.map (·.mark) := by
  obtain ⟨entry, course, flow, hcourse, hframes, -, -, hpassed⟩ :=
    settled_of_analyze (isAscent_true hierarchy) h
  obtain ⟨before, hbefore⟩ := (exists_frame_iff_reaches hn.nodup h index).mpr hreach
  obtain ⟨_, -, htargets, -⟩ := hpassed index step before ((hcourse.getElem?_steps index).trans hs)
    (Flow.frameAt?_eq_some.mpr (hframes ▸ hbefore))
  obtain ⟨place, hplace⟩ := htargets target ht
  rw [Scene.position_eq_ok, hcourse.scene] at hplace
  obtain ⟨found, hfound, rfl⟩ := of_getElem?_positions hplace
  exact List.mem_map_of_mem (List.mem_of_getElem? hfound)

/-- No method is refreshed in which control can reach a jump that leads to no instruction. -/
theorem ClassFile.exists_refusal_of_reaches {file : ClassFile} {number : Nat} {method : Method}
    {body : Body} (hm : file.methods[number]? = some method) (hb : method.body? = some body)
    (he : body.encoded = none) (hn : body.IsNumbered) {index : Nat} {step : Step}
    (hreach : body.Reaches index) (hs : body.steps[index]? = some step) {target : Mark}
    (ht : target ∈ step.instruction.targets) (hmissing : target ∉ body.steps.map (·.mark))
    (thisClass : Bytes) (hierarchy : Hierarchy) :
    ∃ refusal later, refreshMethod number thisClass hierarchy file = (.error refusal, later) := by
  cases h : refreshMethod number thisClass hierarchy file with
  | mk result later =>
    cases result with
    | error refusal => exact ⟨refusal, later, rfl⟩
    | ok done =>
      have hstale : file.isStale number = true := by
        unfold isStale
        rw [hm, Option.bind_some, hb, Option.any_some, he]
        rfl
      obtain ⟨found, _, hfound, -, hrefreshed⟩ :=
        (isRefreshed_refreshMethod hstale h).stale number rfl hstale
      obtain rfl := Option.some.inj (hm.symm.trans hfound)
      obtain ⟨same, head, _, before, _, -, -, hsame, -, -, hrefreshed, -⟩ := hrefreshed
      obtain rfl := Option.some.inj (hb.symm.trans hsame)
      obtain ⟨analysis, _, _, _, hanalysis, -⟩ := hrefreshed
      exact absurd (Body.mem_of_reaches hn hanalysis hreach hs ht) hmissing

/-! ### What a template leaves in a body -/

namespace Template

variable {text : String} {template : Template} {body body' : Body} {pool later : Pool}
  {steps : List Step}

/-- What is put together from the instructions of a body and from steps with new marks has distinct
marks. -/
theorem isNumbered_of_subperm {placed : Body} (hb : body.IsNumbered)
    (hm : AreMarked body.nextMark steps) (hn : body.nextMark + steps.length ≤ placed.nextMark)
    (hp : (placed.steps.map (·.mark)).Subperm ((steps ++ body.steps).map (·.mark))) :
    placed.IsNumbered := by
  have hnew : ∀ mark ∈ steps.map (·.mark),
      body.nextMark ≤ mark.number ∧ mark.number < body.nextMark + steps.length := by
    intro mark hmark
    obtain ⟨step, hstep, rfl⟩ := List.mem_map.mp hmark
    exact hm.bounds hstep
  have hnodup : ((steps ++ body.steps).map (·.mark)).Nodup := by
    rw [List.map_append]
    refine List.nodup_append.mpr ⟨hm.nodup, hb.nodup, fun mark hmark other ho heq => ?_⟩
    have hge := (hnew mark hmark).1
    have hlt := hb.below other ho
    rw [heq] at hge
    omega
  obtain ⟨marks, hperm, hsub⟩ := hp
  refine ⟨hperm.nodup_iff.mp (hsub.nodup hnodup), fun mark hmark => ?_⟩
  have hmem := hsub.subset (hperm.mem_iff.mpr hmark)
  rw [List.map_append] at hmem
  rcases List.mem_append.mp hmem with hin | hin
  · exact Nat.lt_of_lt_of_le (hnew mark hin).2 hn
  · have hlt := hb.below mark hin
    omega

/-- A mark that comes after those of the new steps is in nothing that is put together from these and
the instructions of the body. -/
theorem not_mem_of_subperm {placed : Body} (hb : body.IsNumbered)
    (hm : AreMarked body.nextMark steps)
    (hp : (placed.steps.map (·.mark)).Subperm ((steps ++ body.steps).map (·.mark))) {mark : Mark}
    (hge : body.nextMark + steps.length ≤ mark.number) : mark ∉ placed.steps.map (·.mark) := by
  intro hin
  have hmem := hp.subset hin
  rw [List.map_append] at hmem
  rcases List.mem_append.mp hmem with hnew | hold
  · obtain ⟨step, hstep, rfl⟩ := List.mem_map.mp hnew
    exact absurd (hm.bounds hstep).2 (Nat.not_lt_of_le hge)
  · have hbelow := hb.below mark hold
    omega

/-- What a template that was read leaves in a body: steps that are what its lines stand for, with
the marks that come next, and jumps to the step after the label that they name.  A label that it
does not define has a mark of its own, which no instruction has in whatever becomes of the body, and
the method is not refreshed while control can reach a jump to it.  Constants keep their places.
Wherever those that are used are there the template leaves the same steps again, by as many marks
later as were given out since, and adds no constants. -/
theorem exists_marks_of_stepsIn (ht : read text = .ok template)
    (h : template.stepsIn body pool = (.ok steps, body', later)) : ∃ marks : String → Mark,
      template.IsResolved later body.nextMark body'.nextMark marks steps ∧ pool.Grows later ∧
      (∀ (now : Body) (last : Pool), body.nextMark ≤ now.nextMark → later.Precedes last →
        template.stepsIn now last =
          (.ok (steps.map (·.shift (now.nextMark - body.nextMark))),
            { now with nextMark := now.nextMark + (body'.nextMark - body.nextMark) }, last)) ∧
      (body.IsNumbered → ∀ name, template.Misses name →
        ∀ (used : Template → Prop) (placed now : Body), body'.nextMark ≤ placed.nextMark →
          (placed.steps.map (·.mark)).Subperm ((steps ++ body.steps).map (·.mark)) →
          placed.Becomes used now → marks name ∉ now.steps.map (·.mark) ∧
            ∀ (file : ClassFile) (number : Nat) (method : Method) (op : Opcode) (mark : Mark)
              (index : Nat) (thisClass : Bytes) (hierarchy : Hierarchy),
              file.methods[number]? = some method → method.body? = some now →
              now.encoded = none → now.Reaches index →
              now.steps[index]? = some ⟨mark, .jump op (marks name)⟩ →
              ∃ refusal file', ClassFile.refreshMethod number thisClass hierarchy file =
                (.error refusal, file')) := by
  obtain ⟨next, hsteps, rfl⟩ := stepsIn_eq_ok.mp h
  obtain ⟨marks, hresolved⟩ := exists_isResolved (read_eq_ok.mp ht).2 hsteps
  obtain ⟨hextends, hlength, hmarked, -⟩ := steps_spec hsteps
  refine ⟨marks, hresolved, hextends.grows, fun now last hn hl => ?_,
    fun hb name hname used placed now hn hp hbecomes => ?_⟩
  · have hagain := (steps_shift (now.nextMark - body.nextMark) hsteps).2 last hl
    rw [Nat.add_sub_cancel' hn] at hagain
    have hle : body.nextMark ≤ next := Nat.le_trans (Nat.le_add_right _ _) hlength
    refine stepsIn_eq_ok.mpr ⟨_, hagain, ?_⟩
    dsimp only
    congr 1
    omega
  · obtain ⟨hge, hlt⟩ : body.nextMark + steps.length ≤ (marks name).number ∧
        (marks name).number < next := hresolved.reserved name hname
    have hplaced := isNumbered_of_subperm hb hmarked (Nat.le_trans hlength hn) hp
    -- no instruction has the mark when the steps are placed, and it was given out by then
    obtain ⟨uses, -, hlives⟩ := hbecomes
    have hmissing : marks name ∉ now.steps.map (·.mark) :=
      hlives.not_mem_of_lt (Nat.lt_of_lt_of_le hlt hn)
        (not_mem_of_subperm hb hmarked hp hge)
    refine ⟨hmissing, fun file number method op mark index thisClass hierarchy hm hbody he hreach hs
      => ?_⟩
    exact ClassFile.exists_refusal_of_reaches hm hbody he (hlives.isNumbered hplaced) hreach hs
      (List.mem_singleton.mpr rfl) hmissing thisClass hierarchy

end Template

/-! ### A jump to a label that is missing -/

namespace Straying

open Dangling (classOf complete returning)

/-- What `code` is spelled like. -/
def text : String := "goto nowhere"

theorem read_text : Template.read text = .ok code := by
  have hkept : Template.keptLines (splitLines [] text.toList) =
      ["goto nowhere"].map String.toList := by decide +kernel
  rw [Template.read_eq_ok, hkept]
  exact ⟨.cons (by decide +kernel) .nil, by decide⟩

/-- Where the jump comes first, the method is not refreshed. -/
theorem exists_refusal_strayed : Template.read text = .ok code ∧
    code.stepsIn returning (classOf complete).pool =
      (.ok [⟨⟨1⟩, .jump Opcode.goto ⟨2⟩⟩], { returning with nextMark := 3 },
        (classOf complete).pool) ∧
    ∀ thisClass hierarchy, ∃ refusal file', ClassFile.refreshMethod 1 thisClass hierarchy
      ((classOf complete).setBody 1 strayed) = (.error refusal, file') := by
  have hsteps : code.stepsIn returning (classOf complete).pool =
      (.ok [⟨⟨1⟩, .jump Opcode.goto ⟨2⟩⟩], { returning with nextMark := 3 },
        (classOf complete).pool) :=
    Template.stepsIn_eq_ok.mpr ⟨3, steps_eq _, rfl⟩
  refine ⟨read_text, hsteps, fun thisClass hierarchy => ?_⟩
  obtain ⟨marks, hresolved, -, -, hreserved⟩ := Template.exists_marks_of_stepsIn read_text hsteps
  have hmark : marks "nowhere" = ⟨2⟩ := by
    obtain ⟨hline, -⟩ := List.forall₂_cons.mp hresolved.becomes
    exact (Instruction.jump.inj hline).2.symm
  have hnumbered : returning.IsNumbered := ⟨by decide, by decide⟩
  have hmisses : code.Misses "nowhere" := ⟨⟨Opcode.goto, List.mem_singleton.mpr rfl⟩, by decide⟩
  obtain ⟨-, hrefused⟩ := hreserved hnumbered "nowhere" hmisses (· = code) strayed strayed
    (Nat.le_refl _) (List.Subperm.refl _) .refl
  obtain ⟨method, hmethod, hbody⟩ := Option.bind_eq_some_iff.mp
    (ClassFile.body?_setBody body?_start strayed)
  exact hrefused _ 1 method Opcode.goto ⟨1⟩ 0 thisClass hierarchy hmethod hbody rfl .first
    (by rw [hmark]; rfl)

end Straying

end ClassGraft
