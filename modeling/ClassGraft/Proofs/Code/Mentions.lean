import ClassGraft.Frame.DeadCode
import ClassGraft.Proofs.Code.Tidy

/-!
# What tables mention

The tables of a body mention instructions by their marks: exception handlers, lines, local variables,
and declared frames, which do so also inside types (`Body.mentions`).  A body that was read mentions
its own instructions only (`Body.mem_of_mentions_of_read`).  What an operation on bodies leaves of
these marks is said once for each of them.
-/

namespace ClassGraft

open Reader

/-- The marks inside a type. -/
def FrameType.marks : FrameType → List Mark
  | .uninitialized mark => [mark]
  | _ => []

/-- The marks inside the types of a declared frame. -/
def FrameChange.marks : FrameChange → List Mark
  | .same | .chop _ => []
  | .sameOne type => type.marks
  | .append types => types.flatMap FrameType.marks
  | .full locals stack => (locals ++ stack).flatMap FrameType.marks

/-- The mark of a declared frame, and those inside its types. -/
def DeclaredFrame.marks (frame : DeclaredFrame) : List Mark :=
  frame.mark :: frame.change.marks

/-- The marks in an attribute, also those of declared frames. -/
def BodyAttribute.mentions : BodyAttribute → List Mark
  | .frames _ entries => entries.flatMap DeclaredFrame.marks
  | item => item.marks

namespace Body

/-- The marks in the handlers and the tables of a body. -/
def mentions (body : Body) : List Mark :=
  body.handlers.flatMap Handler.marks ++ body.attributes.flatMap BodyAttribute.mentions

variable {body : Body} {pool : Pool}

theorem mem_mentions {mark : Mark} : mark ∈ body.mentions ↔
    (∃ handler ∈ body.handlers, mark ∈ handler.marks) ∨
      ∃ item ∈ body.attributes, mark ∈ item.mentions := by
  rw [mentions, List.mem_append, List.mem_flatMap, List.mem_flatMap]

/-! ### Bodies that were read -/

variable {codeLength : Nat} {offsets : List Nat}

theorem gives_readType : (readType (.ofOffsets codeLength offsets) pool).Gives fun type =>
    ∀ mark ∈ type.marks, mark ∈ Starts.marks offsets := by
  have hnone : ∀ {type : FrameType}, type.marks = [] →
      (pure type : Reader FrameType).Gives fun type =>
        ∀ mark ∈ type.marks, mark ∈ Starts.marks offsets :=
    fun h => gives_pure (by simp [h])
  refine gives_bind fun tag => ?_
  split
  iterate 7 exact hnone rfl
  · refine gives_bind fun index => ?_
    cases pool.className index with
    | some name => exact hnone rfl
    | none => exact gives_malformed _
  · refine gives_bind fun offset => (Starts.gives_mark _ _).bind fun mark hmark => gives_pure ?_
    exact List.forall_mem_singleton.mpr (Starts.mem_of_mark? hmark)
  · exact gives_malformed _

theorem gives_readChange : (readChange (.ofOffsets codeLength offsets) pool).Gives fun row =>
    ∀ mark ∈ row.2.marks, mark ∈ Starts.marks offsets := by
  have hnone : ∀ {row : Nat × FrameChange}, row.2.marks = [] →
      (pure row : Reader (Nat × FrameChange)).Gives fun row =>
        ∀ mark ∈ row.2.marks, mark ∈ Starts.marks offsets :=
    fun h => gives_pure (by simp [h])
  have hlist : ∀ {types : List FrameType},
      (∀ type ∈ types, ∀ mark ∈ type.marks, mark ∈ Starts.marks offsets) →
        ∀ mark ∈ types.flatMap FrameType.marks, mark ∈ Starts.marks offsets := by
    intro types h mark hmark
    obtain ⟨type, htype, hmark⟩ := List.mem_flatMap.mp hmark
    exact h type htype mark hmark
  refine gives_bind fun tag => ?_
  refine gives_ite (fun _ => hnone rfl) fun _ => ?_
  refine gives_ite (fun _ => gives_readType.bind fun _ htype => gives_pure htype) fun _ => ?_
  refine gives_ite (fun _ => gives_malformed _) fun _ => gives_bind fun distance => ?_
  refine gives_ite (fun _ => gives_readType.bind fun _ htype => gives_pure htype) fun _ => ?_
  refine gives_ite (fun _ => hnone rfl) fun _ => gives_ite (fun _ => hnone rfl) fun _ => ?_
  refine gives_ite (fun _ => ?_) fun _ => ?_
  · exact (gives_repeatedFrom gives_readType (List.forall_mem_nil _)).bind fun types htypes =>
      gives_pure (hlist htypes)
  · refine (gives_list gives_readType).bind fun locals hlocals => ?_
    refine (gives_list gives_readType).bind fun stack hstack => gives_pure (hlist ?_)
    exact List.forall_mem_append.mpr ⟨hlocals, hstack⟩

theorem gives_readFramesFrom {count : Nat} {previous : Option Nat} {found : List DeclaredFrame}
    (hf : ∀ frame ∈ found, ∀ mark ∈ frame.marks, mark ∈ Starts.marks offsets) :
    (readFramesFrom (.ofOffsets codeLength offsets) pool count previous found).Gives fun frames =>
      ∀ frame ∈ frames, ∀ mark ∈ frame.marks, mark ∈ Starts.marks offsets := by
  induction count generalizing previous found with
  | zero => exact gives_pure fun frame hframe => hf frame (List.mem_reverse.mp hframe)
  | succ count ih =>
    refine gives_readChange.bind fun ⟨distance, change⟩ hchange => ?_
    refine (Starts.gives_mark _ _).bind fun mark hmark => ih ?_
    refine List.forall_mem_cons.mpr ⟨?_, hf⟩
    exact List.forall_mem_cons.mpr ⟨Starts.mem_of_mark? hmark, hchange⟩

/-- What is found for an attribute mentions instructions only; a table of frames that cannot be read
has no frames. -/
theorem mem_of_mentions_attributeOf (hp : offsets.Pairwise (· < ·)) {index : UInt16} {name : Bytes}
    (hname : pool.utf8 index = some name) (info : Bytes) :
    ∀ mark ∈ (attributeOf (.ofOffsets codeLength offsets) pool index name info).mentions,
      mark ∈ Starts.marks offsets := by
  have htidy : (attributeOf (.ofOffsets codeLength offsets) pool index name info).IsTidy pool
      (Starts.marks offsets) := isTidy_attributeOf hp hname info
  cases hitem : attributeOf (.ofOffsets codeLength offsets) pool index name info with
  | frames found entries =>
    -- Tidiness says nothing about a table of frames, so that its marks come from its reader.
    have hentries : entries =
        (readWhole (readFrames (.ofOffsets codeLength offsets) pool) info).getD [] := by
      unfold attributeOf at hitem
      dsimp only at hitem
      split_ifs at hitem
      · cases hread : readWhole (list (readLine (.ofOffsets codeLength offsets))) info <;>
          simp [hread] at hitem
      · cases hread : readWhole (list (readVariable (.ofOffsets codeLength offsets))) info <;>
          simp [hread] at hitem
      · cases hread : readWhole (list (readVariable (.ofOffsets codeLength offsets))) info <;>
          simp [hread] at hitem
      · exact (BodyAttribute.frames.inj hitem).2.symm
    intro mark hmark
    obtain ⟨frame, hframe, hmark⟩ := List.mem_flatMap.mp hmark
    cases hread : readWhole (readFrames (.ofOffsets codeLength offsets) pool) info with
    | none =>
      rw [hentries, hread] at hframe
      exact absurd hframe List.not_mem_nil
    | some frames =>
      rw [hentries, hread] at hframe
      have hgives : (readFrames (.ofOffsets codeLength offsets) pool).Gives fun frames =>
          ∀ frame ∈ frames, ∀ mark ∈ frame.marks, mark ∈ Starts.marks offsets :=
        gives_bind fun _ => gives_readFramesFrom (List.forall_mem_nil _)
      exact of_readWhole hgives hread frame hframe mark hmark
  | lines | «locals» | other =>
    rw [hitem] at htidy
    exact htidy.mem

/-- A body that was read mentions its own instructions only. -/
theorem mem_of_mentions_of_read {name : UInt16} {cursor next : Cursor}
    (h : read name pool cursor = .ok (body, next)) :
    ∀ mark ∈ body.mentions, mark ∈ body.steps.map (·.mark) := by
  obtain ⟨length, rows, instructions, c₁, c₂, c₃, c₄, -, hrows, hinstructions, hhandlers,
    hattributes, hbody⟩ := of_read h
  obtain ⟨part, last, -, hall⟩ := within_eq_ok.mp hrows
  obtain ⟨hordered, -⟩ := Bytecode.pairwise_of_all hall
  have hcount : instructions.length = (rows.map (·.1)).length := by
    rw [List.length_map]
    exact (Except.mapM_eq_ok.mp hinstructions).length_eq.symm
  have hmarks : body.steps.map (·.mark) = Starts.marks (rows.map (·.1)) := by
    rw [hbody, map_mark_zipIdx, hcount]
    rfl
  have hgives : (readAttribute (.ofOffsets length (rows.map (·.1))) pool).Gives fun item =>
      ∀ mark ∈ item.mentions, mark ∈ Starts.marks (rows.map (·.1)) := by
    refine gives_bind fun index => gives_bind fun _ => gives_bind fun info => ?_
    cases hname : pool.utf8 index with
    | some name => exact gives_pure (mem_of_mentions_attributeOf hordered hname info)
    | none => exact gives_malformed _
  intro mark hmark
  rw [hmarks]
  rcases mem_mentions.mp hmark with ⟨handler, hhandler, hmark⟩ | ⟨item, hitem, hmark⟩
  · exact gives_list gives_readHandler _ _ _ hhandlers handler hhandler mark hmark
  · exact gives_list hgives _ _ _ hattributes item hitem mark hmark

/-! ### Operations -/

theorem mem_marks_move {source target mark : Mark} {place : Place}
    (h : mark ∈ (Place.move source target place).marks) : mark = target ∨ mark ∈ place.marks := by
  cases place with
  | finish => exact .inr h
  | «at» other =>
    obtain rfl := List.mem_singleton.mp h
    rw [Mark.move]
    split_ifs
    · exact .inl rfl
    · exact .inr (List.mem_singleton_self other)

theorem move_eq_or_mem {source target mark : Mark} {marks : List Mark} (h : mark ∈ marks) :
    Mark.move source target mark = target ∨ Mark.move source target mark ∈ marks := by
  rw [Mark.move]
  split_ifs
  · exact .inl rfl
  · exact .inr h

/-- Where references move to a mark, no others are new. -/
theorem mem_mentions_move {source target mark : Mark} {item : BodyAttribute}
    (h : mark ∈ (item.move source target).mentions) : mark = target ∨ mark ∈ item.mentions := by
  cases item with
  | lines name entries =>
    obtain ⟨moved, hmoved, rfl⟩ := List.mem_map.mp h
    obtain ⟨entry, hentry, rfl⟩ := List.mem_map.mp hmoved
    exact move_eq_or_mem (List.mem_map_of_mem hentry)
  | «locals» table name entries =>
    obtain ⟨moved, hmoved, h⟩ := List.mem_flatMap.mp h
    obtain ⟨entry, hentry, rfl⟩ := List.mem_map.mp hmoved
    have hin : ∀ other ∈ entry.start :: entry.stop.marks,
        other ∈ (BodyAttribute.locals table name entries).mentions :=
      fun other hother => List.mem_flatMap.mpr ⟨entry, hentry, hother⟩
    rcases List.mem_cons.mp h with rfl | h
    · exact move_eq_or_mem (hin _ List.mem_cons_self)
    · exact (mem_marks_move h).imp_right fun h => hin _ (List.mem_cons_of_mem _ h)
  | frames name entries =>
    obtain ⟨moved, hmoved, h⟩ := List.mem_flatMap.mp h
    obtain ⟨entry, hentry, rfl⟩ := List.mem_map.mp hmoved
    have hin : ∀ other ∈ entry.marks, other ∈ (BodyAttribute.frames name entries).mentions :=
      fun other hother => List.mem_flatMap.mpr ⟨entry, hentry, hother⟩
    rcases List.mem_cons.mp h with rfl | h
    · exact move_eq_or_mem (hin _ List.mem_cons_self)
    · exact .inr (hin _ (List.mem_cons_of_mem _ h))
  | other raw => exact .inr h

theorem mem_mentions_retarget {source target mark : Mark}
    (h : mark ∈ (body.retarget source target).mentions) : mark = target ∨ mark ∈ body.mentions := by
  rcases mem_mentions.mp h with ⟨moved, hmoved, h⟩ | ⟨moved, hmoved, h⟩
  · obtain ⟨handler, hhandler, rfl⟩ := List.mem_map.mp hmoved
    have hin : ∀ other ∈ handler.marks, other ∈ body.mentions :=
      fun other hother => mem_mentions.mpr (.inl ⟨handler, hhandler, hother⟩)
    rcases List.mem_cons.mp h with rfl | h
    · exact move_eq_or_mem (hin _ List.mem_cons_self)
    · rcases List.mem_cons.mp h with rfl | h
      · exact .inr (hin _ (List.mem_cons_of_mem _ List.mem_cons_self))
      · exact (mem_marks_move h).imp_right fun h =>
          hin _ (List.mem_cons_of_mem _ (List.mem_cons_of_mem _ h))
  · obtain ⟨item, hitem, rfl⟩ := List.mem_map.mp hmoved
    exact (mem_mentions_move h).imp_right fun h => mem_mentions.mpr (.inr ⟨item, hitem, h⟩)

/-- What is left of the tables when all instructions are exchanged mentions none. -/
theorem mentions_replace (body : Body) (steps : List Step) : (body.replace steps []).mentions = [] := by
  refine List.eq_nil_iff_forall_not_mem.mpr fun mark hmark => ?_
  rcases mem_mentions.mp hmark with ⟨handler, hhandler, -⟩ | ⟨item, hitem, hmark⟩
  · nomatch hhandler
  · obtain ⟨old, -, hclear⟩ := List.mem_filterMap.mp hitem
    cases old with
    | frames name entries =>
      obtain rfl := Option.some.inj hclear
      nomatch hmark
    | _ => nomatch hclear

/-- The parts of a handler start and stop at instructions, and exceptions go on where they did. -/
theorem mem_marks_liveParts {dead : List Bool} {handler part : Handler} {mark : Mark}
    (hp : part ∈ body.liveParts dead handler) (h : mark ∈ part.marks) :
    mark ∈ body.steps.map (·.mark) ∨ mark ∈ handler.marks := by
  unfold liveParts at hp
  split at hp
  · obtain ⟨⟨first, after⟩, -, hpart⟩ := List.mem_filterMap.mp hp
    obtain ⟨step, hstep, rfl⟩ := Option.map_eq_some_iff.mp hpart
    rcases List.mem_cons.mp h with rfl | h
    · exact .inl (List.mem_map_of_mem (List.mem_of_getElem? hstep))
    · rcases List.mem_cons.mp h with rfl | h
      · exact .inr (List.mem_cons_of_mem _ List.mem_cons_self)
      · cases hafter : body.steps[after]? with
        | none => simp [hafter, Place.marks] at h
        | some next =>
          simp only [hafter, Place.marks, List.mem_singleton] at h
          exact .inl (h ▸ List.mem_map_of_mem (List.mem_of_getElem? hafter))
  · exact absurd hp List.not_mem_nil

theorem mem_mentions_withoutDead {dead : List Bool} {mark : Mark}
    (h : mark ∈ (body.withoutDead dead).mentions) :
    mark ∈ body.steps.map (·.mark) ∨ mark ∈ body.mentions := by
  rcases mem_mentions.mp h with ⟨part, hpart, h⟩ | ⟨item, hitem, h⟩
  · obtain ⟨handler, hhandler, hpart⟩ := List.mem_flatMap.mp hpart
    exact (mem_marks_liveParts hpart h).imp_right fun h =>
      mem_mentions.mpr (.inl ⟨handler, hhandler, h⟩)
  · exact .inr (mem_mentions.mpr (.inr ⟨item, hitem, h⟩))

end Body

end ClassGraft
