import ClassGraft.Proofs.Class.Refreshed
import ClassGraft.Proofs.Code.Shown
import ClassGraft.Proofs.Graft.Grafted
import ClassGraft.Proofs.Graft.Weaving
import ClassGraft.Proofs.Template.Proper

/-!
# Bodies stay tidy

Edits with proper templates keep bodies tidy (`Body.Grafted.isTidy`): new instructions have marks
that no other has, and what tables refer to stays in order when instructions are inserted before it
or references move to the first of these.  A body that still has bytes is what was read from them
(`Body.Grafted.exists_read`), and one without is marked as changed.
-/

namespace ClassGraft

open Reader

variable {pool later : Pool} {marks marks' : List Mark} {body : Body}

/-! ### Tables under other marks -/

theorem VariableEntry.IsOrdered.renumber {number : Mark → Mark} {entry : VariableEntry}
    (h : entry.IsOrdered marks) (hs : (marks.map number).Sublist marks') :
    (entry.renumber number).IsOrdered marks' := by
  unfold IsOrdered VariableEntry.renumber at *
  cases hstop : entry.stop with
  | finish =>
    rw [hstop] at h
    exact hs.subset (List.mem_map_of_mem h)
  | «at» mark =>
    rw [hstop] at h
    exact h.map hs

/-- A table stays tidy under other marks that have the order of the old ones. -/
theorem BodyAttribute.IsTidy.renumber {number : Mark → Mark} {item : BodyAttribute}
    (h : item.IsTidy pool marks) (hs : (marks.map number).Sublist marks') :
    (item.renumber number).IsTidy pool marks' := by
  cases item with
  | lines name entries =>
    refine ⟨h.1, fun entry hentry => ?_⟩
    obtain ⟨old, hold, rfl⟩ := List.mem_map.mp hentry
    exact hs.subset (List.mem_map_of_mem (h.2 old hold))
  | «locals» table name entries =>
    refine ⟨h.1, fun entry hentry => ?_⟩
    obtain ⟨old, hold, rfl⟩ := List.mem_map.mp hentry
    exact (h.2 old hold).renumber hs
  | frames name entries => exact h
  | other raw => exact trivial

theorem BodyAttribute.IsTidy.sublist {item : BodyAttribute} (h : item.IsTidy pool marks)
    (hs : marks.Sublist marks') : item.IsTidy pool marks' := by
  rw [← List.map_id marks] at hs
  have hrenumbered := h.renumber hs
  rwa [BodyAttribute.renumber_id] at hrenumbered

theorem Place.move_eq_renumber (source target : Mark) (place : Place) :
    Place.move source target place = place.renumber (Mark.move source target) := by
  cases place <;> rfl

/-- Moving references is one way to name instructions by other marks; declared frames are not looked
at. -/
theorem BodyAttribute.IsTidy.move {source target : Mark} {item : BodyAttribute}
    (h : item.IsTidy pool marks) (hs : (marks.map (Mark.move source target)).Sublist marks') :
    (item.move source target).IsTidy pool marks' := by
  cases item with
  | lines name entries => exact h.renumber hs
  | «locals» table name entries =>
    have hsame : BodyAttribute.move source target (.locals table name entries) =
        (BodyAttribute.locals table name entries).renumber (Mark.move source target) := by
      simp only [BodyAttribute.move, Place.move_eq_renumber]
      rfl
    rw [hsame]
    exact h.renumber hs
  | frames name entries => exact h
  | other raw => exact trivial

theorem BodyAttribute.IsTidy.grow {item : BodyAttribute} (h : item.IsTidy pool marks)
    (hg : pool.Grows later) : item.IsTidy later marks := by
  cases item with
  | lines name entries => exact ⟨hg.utf8 h.1, h.2⟩
  | «locals» table name entries => exact ⟨hg.utf8 h.1, h.2⟩
  | frames name entries => exact hg.utf8 h
  | other raw => exact trivial

/-! ### Marks -/

theorem Body.map_mark_retarget (body : Body) (source target : Mark) :
    (body.retarget source target).steps.map (·.mark) = body.steps.map (·.mark) := by
  show (body.steps.map _).map _ = _
  rw [List.map_map]
  rfl

theorem Body.map_mark_insertAt (body : Body) (index : Nat) (steps : List Step) :
    (body.insertAt index steps).steps.map (·.mark) = (body.steps.map (·.mark)).take index ++
      steps.map (·.mark) ++ (body.steps.map (·.mark)).drop index := by
  show (body.steps.take index ++ steps ++ body.steps.drop index).map (·.mark) = _
  rw [List.map_append, List.map_append, List.map_take, List.map_drop]

theorem Body.perm_insertAt (body : Body) (index : Nat) (steps : List Step) :
    (body.insertAt index steps).steps.Perm (steps ++ body.steps) := by
  show (body.steps.take index ++ steps ++ body.steps.drop index).Perm _
  rw [List.append_assoc]
  refine (List.perm_append_comm_assoc _ _ _).trans ?_
  rw [List.take_append_drop]

/-- Steps with marks from a number on go anywhere among those with smaller ones. -/
theorem Body.nodup_insertAt {steps : List Step} {first : Nat}
    (hn : (body.steps.map (·.mark)).Nodup)
    (ho : ∀ mark ∈ body.steps.map (·.mark), mark.number < first)
    (hm : Template.AreMarked first steps) (index : Nat) :
    ((body.insertAt index steps).steps.map (·.mark)).Nodup := by
  rw [((body.perm_insertAt index steps).map (·.mark)).nodup_iff, List.map_append]
  refine List.nodup_append.mpr ⟨hm.nodup, hn, fun mark hmark other hother => ?_⟩
  obtain ⟨step, hstep, rfl⟩ := List.mem_map.mp hmark
  have hnew := (hm.bounds hstep).1
  have hbelow := ho other hother
  rintro rfl
  omega

namespace Body.IsMarked

variable {steps : List Step} {first : Nat}

/-- Marks may be given out and not used. -/
theorem withNextMark (h : body.IsMarked) {number : Nat} (hn : body.nextMark ≤ number) :
    Body.IsMarked { body with nextMark := number } :=
  ⟨h.nodup, fun step hstep => Nat.lt_of_lt_of_le (h.below step hstep) hn, h.readable⟩

theorem retarget (h : body.IsMarked) (source target : Mark) :
    (body.retarget source target).IsMarked := by
  refine ⟨?_, fun step hstep => ?_, fun step hstep => ?_⟩
  · rw [body.map_mark_retarget]
    exact h.nodup
  · obtain ⟨old, hold, rfl⟩ := List.mem_map.mp hstep
    exact h.below old hold
  · obtain ⟨old, hold, rfl⟩ := List.mem_map.mp hstep
    exact (Instruction.isReadable_mapTargets _ _).trans (h.readable old hold)

/-- Fresh marks may be inserted anywhere. -/
theorem insertAt (h : body.IsMarked) (ho : ∀ step ∈ body.steps, step.mark.number < first)
    (hm : Template.AreMarked first steps) (hn : first + steps.length ≤ body.nextMark)
    (hr : ∀ step ∈ steps, step.instruction.isReadable = true) (index : Nat) :
    (body.insertAt index steps).IsMarked := by
  have hperm := body.perm_insertAt index steps
  refine ⟨nodup_insertAt h.nodup (List.forall_mem_map.mpr ho) hm index, fun step hstep => ?_,
    fun step hstep => ?_⟩
  · rcases List.mem_append.mp (hperm.mem_iff.mp hstep) with hstep | hstep
    · exact Nat.lt_of_lt_of_le (hm.bounds hstep).2 hn
    · exact h.below step hstep
  · rcases List.mem_append.mp (hperm.mem_iff.mp hstep) with hstep | hstep
    · exact hr step hstep
    · exact h.readable step hstep

end Body.IsMarked

/-! ### Bodies under edits -/

namespace Body.IsTidy

variable {steps : List Step} {number : Nat}

/-- More constants do no harm. -/
theorem grow (h : body.IsTidy pool) (hg : pool.Grows later) : body.IsTidy later := by
  refine ⟨h.toIsMarked, ?_, fun item hitem => (h.attributes item hitem).grow hg⟩
  rw [hg.utf8Is_eq (Pool.isSome_of_utf8Is h.name)]
  exact h.name

/-- New instructions in place of all others are tidy if they have fresh marks and can be read. -/
theorem replace (h : body.IsTidy pool) (hm : Template.AreMarked body.nextMark steps)
    (hn : body.nextMark + steps.length ≤ number)
    (hr : ∀ step ∈ steps, step.instruction.isReadable = true) :
    (Body.replace { body with nextMark := number } steps []).IsTidy pool := by
  refine ⟨⟨hm.nodup,
    fun step hstep => Nat.lt_of_lt_of_le (hm.bounds hstep).2 hn, hr⟩, h.name,
    fun item hitem => ?_⟩
  -- only the name of a table of frames is left
  obtain ⟨old, hold, hclear⟩ := List.mem_filterMap.mp hitem
  have htidy := h.attributes old hold
  cases old with
  | frames name entries =>
    obtain rfl := Option.some.inj hclear
    exact htidy
  | _ => nomatch hclear

theorem insertAt (h : body.IsTidy pool) (hm : Template.AreMarked body.nextMark steps)
    (hn : body.nextMark + steps.length ≤ number)
    (hr : ∀ step ∈ steps, step.instruction.isReadable = true) (index : Nat) :
    (Body.insertAt { body with nextMark := number } index steps).IsTidy pool := by
  have hmarked := (h.withNextMark (Nat.le_of_add_right_le hn)).insertAt h.below hm hn hr index
  refine ⟨hmarked, h.name, fun item hitem => (h.attributes item hitem).sublist ?_⟩
  rw [Body.map_mark_insertAt]
  have hsub := (List.sublist_append_left ((body.steps.map (·.mark)).take index)
    (steps.map (·.mark))).append (List.Sublist.refl ((body.steps.map (·.mark)).drop index))
  rwa [List.take_append_drop] at hsub

/-- Where references to an instruction move to the first of those inserted before it, they stay in
order. -/
theorem insertBefore {first : Step} {rest : List Step} {anchor : Mark} {index : Nat}
    (h : body.IsTidy pool) (ha : body.position? anchor = some index)
    (hm : Template.AreMarked body.nextMark (first :: rest))
    (hn : body.nextMark + (first :: rest).length ≤ number)
    (hr : ∀ step ∈ first :: rest, step.instruction.isReadable = true) :
    ((Body.retarget { body with nextMark := number } anchor first.mark).insertAt index
      (first :: rest)).IsTidy pool := by
  have hretargeted := (h.withNextMark (Nat.le_of_add_right_le hn)).retarget anchor first.mark
  have hbelow : ∀ step ∈ (Body.retarget { body with nextMark := number } anchor first.mark).steps,
      step.mark.number < body.nextMark := by
    intro step hstep
    obtain ⟨old, hold, rfl⟩ := List.mem_map.mp hstep
    exact h.below old hold
  refine ⟨hretargeted.insertAt hbelow hm hn hr index, h.name, fun item hitem => ?_⟩
  obtain ⟨old, hold, rfl⟩ := List.mem_map.mp hitem
  refine (h.attributes old hold).move ?_
  obtain ⟨hlt, hmark, -⟩ := List.findIdx?_eq_some_iff_getElem.mp ha
  obtain ⟨before, after, hsplit⟩ := List.append_of_mem (List.getElem_mem hlt)
  have hindex := position?_of_split h.nodup hsplit
  rw [eq_of_beq hmark, ha] at hindex
  have hmarks := congrArg (List.map (·.mark)) hsplit
  rw [List.map_append, List.map_cons, eq_of_beq hmark] at hmarks
  have hnodup := h.nodup
  rw [hmarks] at hnodup
  -- the anchor is named by the first of the new marks, and no other mark changes
  have hsame : ∀ mark ∈ before.map (·.mark) ++ after.map (·.mark),
      Mark.move anchor first.mark mark = id mark := by
    intro mark hin
    refine if_neg ?_
    rintro rfl
    exact (List.nodup_cons.mp (List.nodup_middle.mp hnodup)).1 hin
  obtain ⟨hbefore, hafter⟩ := List.forall_mem_append.mp hsame
  have hmoved : (body.steps.map (·.mark)).map (Mark.move anchor first.mark) =
      before.map (·.mark) ++ first.mark :: after.map (·.mark) := by
    rw [hmarks, List.map_append, List.map_cons, List.map_congr_left hbefore, List.map_id,
      List.map_congr_left hafter, List.map_id, Mark.move, if_pos rfl]
  have hlength : index = (before.map (·.mark)).length := by
    rw [List.length_map]
    exact Option.some.inj hindex
  rw [Body.map_mark_insertAt, Body.map_mark_retarget]
  show ((body.steps.map (·.mark)).map _).Sublist ((body.steps.map (·.mark)).take index ++
    (first :: rest).map (·.mark) ++ (body.steps.map (·.mark)).drop index)
  rw [hmoved, hmarks, hlength, List.take_left, List.drop_left, List.append_assoc, List.map_cons,
    List.cons_append]
  refine List.Sublist.append_left (List.Sublist.cons_cons _ ?_) _
  exact (List.sublist_cons_self _ _).trans (List.sublist_append_right _ _)

/-- Calls in place of other instructions keep their marks. -/
theorem redirect (h : body.IsTidy pool) (hs : List.Forall₂ Step.IsRedirected body.steps steps) :
    Body.IsTidy pool { body.touch with steps := steps } := by
  have hmarks : steps.map (·.mark) = body.steps.map (·.mark) := by
    rw [← List.forall₂_eq_eq_eq, List.forall₂_map_left_iff, List.forall₂_map_right_iff]
    exact hs.flip.imp fun step' step hstep => hstep.mark
  refine ⟨⟨hmarks ▸ h.nodup, fun step' hstep' => ?_, fun step' hstep' => ?_⟩, h.name,
    fun item hitem => hmarks ▸ h.attributes item hitem⟩
  · obtain ⟨step, hstep, hredirected⟩ := exists_of_mem_right hs hstep'
    rw [hredirected.mark]
    exact h.below step hstep
  · obtain ⟨step, hstep, hredirected⟩ := exists_of_mem_right hs hstep'
    rcases hredirected.instruction with hsame | ⟨-, kind, index, descriptor, hcall⟩
    · rw [hsame]
      exact h.readable step hstep
    · exact isReadable_call hcall

end Body.IsTidy

/-! ### Bodies of a class that was read -/

namespace Body.Grafted

variable {origin : ClassFile} {used : Template → Prop}

/-- Edits with proper templates keep bodies tidy. -/
theorem isTidy (ho : origin.IsParsed) (hu : ∀ code, used code → code.IsProper)
    (h : body.Grafted origin used pool) : body.IsTidy pool := by
  induction h with
  | read hm hb =>
    obtain ⟨hname, cursor, next, hread⟩ := (ho.methods _ hm).attributes _ hb
    exact Body.isTidy_of_read hname hread
  | new hn =>
    exact ⟨⟨.nil, List.forall_mem_nil _, List.forall_mem_nil _⟩, Pool.utf8Is_of_encode hn,
      List.forall_mem_nil _⟩
  | constants h hp ih => exact ih.grow hp.grows
  | marks h hn ih => exact ⟨ih.withNextMark hn, ih.name, ih.attributes⟩
  | settle h he ih => exact ⟨⟨ih.nodup, ih.below, ih.readable⟩, ih.name, ih.attributes⟩
  | replace h hc hs ih =>
    obtain ⟨hpool, hlength, hmarked, -⟩ := Template.steps_spec hs
    have hreadable := Template.isReadable_of_steps (hu _ hc) hs
    exact (ih.grow hpool.grows).replace hmarked hlength hreadable
  | insert h hc hs index ih =>
    obtain ⟨hpool, hlength, hmarked, -⟩ := Template.steps_spec hs
    have hreadable := Template.isReadable_of_steps (hu _ hc) hs
    exact (ih.grow hpool.grows).insertAt hmarked hlength hreadable index
  | insertBefore h hc hs ha ih =>
    obtain ⟨hpool, hlength, hmarked, -⟩ := Template.steps_spec hs
    have hreadable := Template.isReadable_of_steps (hu _ hc) hs
    exact (ih.grow hpool.grows).insertBefore ha hmarked hlength hreadable
  | redirect h hs ih => exact ih.redirect hs

/-- A body that still has bytes is what was read from them, and one that has none was changed. -/
theorem exists_read (ho : origin.IsParsed) (h : body.Grafted origin used pool) :
    (body.encoded = none → body.modified = true) ∧ ∀ info, body.encoded = some info →
      ∃ (read : Body) (cursor next : Cursor), cursor.rest = info ∧
        Body.read body.name origin.pool cursor = .ok (read, next) ∧
        body = { read with nextMark := body.nextMark } := by
  induction h with
  | read hm hb =>
    obtain ⟨-, cursor, next, hread⟩ := (ho.methods _ hm).attributes _ hb
    have hencoded := (Body.encoded_of_read hread).2
    refine ⟨fun hnone => ?_, fun info hinfo => ⟨_, cursor, next, ?_, hread, rfl⟩⟩
    · rw [hencoded] at hnone
      nomatch hnone
    · exact Option.some.inj (hencoded.symm.trans hinfo)
  | new hn => exact ⟨fun _ => rfl, fun info hinfo => nomatch hinfo⟩
  | constants h hp ih => exact ih
  | marks h hn ih =>
    refine ⟨ih.1, fun info hinfo => ?_⟩
    obtain ⟨read, cursor, next, hrest, hread, hbody⟩ := ih.2 info hinfo
    refine ⟨read, cursor, next, hrest, hread, ?_⟩
    rw [hbody]
  | settle h he ih =>
    refine ⟨ih.1, fun info hinfo => ?_⟩
    have hnone : some info = none := hinfo.symm.trans he
    nomatch hnone
  | replace h hc hs ih => exact ⟨fun _ => rfl, fun info hinfo => nomatch hinfo⟩
  | insert h hc hs index ih => exact ⟨fun _ => rfl, fun info hinfo => nomatch hinfo⟩
  | insertBefore h hc hs ha ih => exact ⟨fun _ => rfl, fun info hinfo => nomatch hinfo⟩
  | redirect h hs ih => exact ⟨fun _ => rfl, fun info hinfo => nomatch hinfo⟩

end Body.Grafted

end ClassGraft
