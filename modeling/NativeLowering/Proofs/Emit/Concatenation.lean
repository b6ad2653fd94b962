import NativeLowering.Proofs.Emit.Outcome
import NativeLowering.Proofs.Emit.Shapes
import NativeLowering.Syntax.Build

/-!
# Declaration by declaration

All declarations of a program are written in one session. Still nothing that one of them does is
seen by the next: a program that is put together from two can be written exactly if both can, and
its file is the one file followed by the other (`program_append`). So what a program leaves is told
by what each declaration leaves in an empty file, and `Contributes` says what that is.
-/

set_option autoImplicit false

namespace NativeLowering

/-- One program followed by another. -/
instance : Append Program := ⟨fun first second => ⟨first.decls ++ second.decls⟩⟩

namespace Emit

variable {cx : Context}

/-- The program can be written to an empty file, and the session is what it leaves. -/
def Leaves (cx : Context) (program : Program) (left : Session) : Prop :=
  Gives (Emit.program cx program) (.start cx.layout) () left

theorem leaves_iff {program : Program} {left : Session} :
    Leaves cx program left ↔
      ∃ output, programOutput cx program = .ok output ∧ left = gain (.start cx.layout) output :=
  gives_decls between_start

/-! ## Two programs in one file -/

theorem declsOutput_append (first second : List Decl) :
    declsOutput cx (first ++ second) = do
      let one ← declsOutput cx first
      let two ← declsOutput cx second
      return one.append two := by
  induction first with
  | nil =>
    change declsOutput cx second = declsOutput cx second >>= fun two => pure (Output.empty.append two)
    cases declsOutput cx second with
    | error e => rfl
    | ok two => rfl
  | cons decl rest ih =>
    simp only [List.cons_append, declsOutput, ih, bind_assoc, pure_bind]
    refine bind_congr fun one => bind_congr fun two => bind_congr fun three => ?_
    simp only [Output.append, List.append_assoc]

theorem appendLines_text (buffer : Buffer) (lines : List String) :
    (buffer.appendLines lines).text
      = buffer.text ++ ((Buffer.atDepth buffer.layout buffer.depth).appendLines lines).text := by
  -- Layout and depth are those of the buffer all along.
  have hfold (lines : List String) : ∀ before added : String,
      (Buffer.appendLines ⟨before ++ added, buffer.depth, buffer.layout⟩ lines).text
        = before ++ (Buffer.appendLines ⟨added, buffer.depth, buffer.layout⟩ lines).text := by
    induction lines with
    | nil =>
      intro before added
      rfl
    | cons line rest ih =>
      intro before added
      simpa only [Buffer.appendLines, List.foldl_cons, Buffer.append, Buffer.write,
        String.append_assoc] using ih before (added ++ buffer.layout.format buffer.depth .line line)
  have hempty := hfold lines buffer.text ""
  rwa [String.append_empty] at hempty

theorem gain_append (one two : Output) :
    (gain (.start cx.layout) (one.append two)).current.text
        = (gain (.start cx.layout) one).current.text
          ++ (gain (.start cx.layout) two).current.text ∧
      (gain (.start cx.layout) (one.append two)).functions
        = (gain (.start cx.layout) one).functions ++ (gain (.start cx.layout) two).functions ∧
      (gain (.start cx.layout) (one.append two)).classes
        = (gain (.start cx.layout) one).classes ++ (gain (.start cx.layout) two).classes := by
  have hshape (lines : List String) :
      ((Buffer.new cx.layout).appendLines lines).layout = cx.layout ∧
        ((Buffer.new cx.layout).appendLines lines).depth = 0 := by
    induction lines using List.reverseRecOn with
    | nil => exact ⟨rfl, rfl⟩
    | append_singleton rest line ih => simpa [Buffer.appendLines, Buffer.append] using ih
  refine ⟨?_, ?_, ?_⟩
  · rw [← gain_gain]
    change (((Buffer.new cx.layout).appendLines one.preamble).appendLines two.preamble).text = _
    rw [appendLines_text, (hshape one.preamble).1, (hshape one.preamble).2]
    rfl
  · simp [gain, Output.append, Session.start]
  · simp [gain, Output.append, Session.start]

/-! ## One declaration -/

/-- The names of the methods that get a receiver function, in order. A destructor gets none. -/
def receiverNames (members : List ClassMember) : List String :=
  members.filterMap fun member =>
    match member with
    | .method _ decl => if decl.name = Spelling.destructor then none else some decl.name
    | .property .. | .constructor .. => none

/-- What a declaration leaves in an empty file. -/
def Contributes (cx : Context) (left : Session) : Decl → Prop
  | .importDecl _ decl =>
    left.functions = [] ∧ left.classes = [] ∧
      ∃ specifier, decl.specifierText = .ok specifier ∧
        left.current = (Buffer.new cx.layout).appendLines
          (("#include <" ++ specifier ++ ">") :: usingLines cx specifier decl.clause)
  | .functionDecl span decl =>
    left.current.text = "" ∧ left.classes = [] ∧
      if decl.declared then left.functions = []
      else ∃ record declared, left.functions = [record] ∧ decl.name = some declared ∧
        functionName cx declared span = .ok record.name
  | .classDecl _ decl =>
    left.current.text = "" ∧
      if decl.declared then left.functions = [] ∧ left.classes = []
      else ∃ record, left.classes = [record] ∧
        left.functions.map (·.name) =
          if cx.options.passes.contains .receiver then
            (receiverNames decl.members).map (Naming.receiverFunction record.name)
          else []
  | .interfaceDecl .. | .typeAlias .. | .moduleDecl .. =>
    left.current.text = "" ∧ left.functions = [] ∧ left.classes = []

theorem functionRecord_name {shape : FunctionShape} {record : FunctionRecord}
    (h : functionRecord cx shape = .ok record) : record.name = shape.name := by
  obtain ⟨params, locals, lowered, draft, -, -, -, rfl⟩ := functionRecordWith_eq_ok.mp h
  rfl

theorem receiverRecords_names {names : ClassNames} : ∀ {members : List ClassMember}
    {records : List FunctionRecord}, receiverRecords cx names members = .ok records →
    records.map (·.name) = (receiverNames members).map (Naming.receiverFunction names.written)
  | [], records, h => by
    cases h
    rfl
  | .property .. :: rest, records, h
  | .constructor .. :: rest, records, h => by
    rw [receiverRecords] at h
    · have hrest : records.map (·.name)
          = (receiverNames rest).map (Naming.receiverFunction names.written) :=
        receiverRecords_names h
      exact hrest
    · intro _ _ hmethod
      cases hmethod
  | .method span decl :: rest, records, h => by
    rw [receiverRecords] at h
    by_cases hd : decl.name = Spelling.destructor
    · rw [if_pos hd] at h
      simpa [receiverNames, hd] using receiverRecords_names h
    · rw [if_neg hd] at h
      obtain ⟨shape, hshape, h⟩ := Lowered.bind_eq_ok.mp h
      obtain ⟨first, hfirst, h⟩ := Lowered.bind_eq_ok.mp h
      obtain ⟨others, hothers, h⟩ := Lowered.bind_eq_ok.mp h
      obtain rfl := Lowered.pure_eq_ok.mp h
      obtain ⟨_, -, -, hshapeName, -⟩ := receiverShape_parts hshape
      have hname : first.name = Naming.receiverFunction names.written decl.name :=
        (functionRecord_name hfirst).trans hshapeName
      simpa [receiverNames, hd, hname] using receiverRecords_names hothers

theorem classOutput_contributes {decl : ClassDecl} {span : Span} {output : Output}
    (h : classOutput cx decl span = .ok output) :
    output.preamble = [] ∧ ∃ record, output.classes = [record] ∧
      output.functions.map (·.name) =
        if cx.options.passes.contains .receiver then
          (receiverNames decl.members).map (Naming.receiverFunction record.name)
        else [] := by
  unfold classOutput at h
  split at h
  · cases h
  · split at h
    · cases h
    · rename_i declared _ item info hclass
      obtain ⟨members, -, h⟩ := Lowered.bind_eq_ok.mp h
      by_cases hr : cx.options.passes.contains .receiver = true
      · simp only [hr, if_true] at h ⊢
        obtain ⟨functions, hfunctions, h⟩ := Lowered.bind_eq_ok.mp h
        obtain rfl := Lowered.pure_eq_ok.mp h
        exact ⟨rfl, _, rfl, receiverRecords_names hfunctions⟩
      · simp only [hr] at h ⊢
        cases h
        exact ⟨rfl, _, rfl, rfl⟩

theorem declOutput_contributes {decl : Decl} {output : Output}
    (h : declOutput cx decl = .ok output) :
    Contributes cx (gain (.start cx.layout) output) decl := by
  cases decl with
  | importDecl span decl =>
    obtain ⟨specifier, hspecifier, h⟩ := Lowered.bind_eq_ok.mp h
    obtain rfl := Lowered.pure_eq_ok.mp h
    refine ⟨rfl, rfl, specifier, hspecifier, ?_⟩
    simp only [gain, Session.start]
  | functionDecl span decl =>
    simp only [declOutput] at h
    split at h
    · rename_i hd
      cases h
      exact ⟨rfl, rfl, by rw [if_pos hd]; rfl⟩
    · rename_i hd
      obtain ⟨shape, hshape, h⟩ := Lowered.bind_eq_ok.mp h
      obtain ⟨record, hrecord, h⟩ := Lowered.bind_eq_ok.mp h
      obtain rfl := Lowered.pure_eq_ok.mp h
      refine ⟨rfl, rfl, ?_⟩
      rw [if_neg hd]
      obtain ⟨declared, hdeclared, hname, -, -⟩ := functionShape_parts hshape
      refine ⟨record, declared, rfl, hdeclared, ?_⟩
      rw [functionRecord_name hrecord]
      exact hname
  | classDecl span decl =>
    simp only [declOutput] at h
    split at h
    · rename_i hd
      cases h
      exact ⟨rfl, by rw [if_pos hd]; exact ⟨rfl, rfl⟩⟩
    · rename_i hd
      obtain ⟨hpreamble, record, hrecord, hfunctions⟩ := classOutput_contributes h
      refine ⟨by simp [gain, hpreamble, Session.start, Buffer.new, Buffer.atDepth], ?_⟩
      rw [if_neg hd]
      exact ⟨record, by simp [gain, hrecord, Session.start], by simpa [gain, Session.start]⟩
  | interfaceDecl span decl =>
    cases h
    exact ⟨rfl, rfl, rfl⟩
  | typeAlias span name =>
    cases h
    exact ⟨rfl, rfl, rfl⟩
  | moduleDecl span decorators declared name body =>
    cases declared with
    | false => cases h
    | true =>
      cases h
      exact ⟨rfl, rfl, rfl⟩

/-- **Writing is a homomorphism of declarations.** A program put together from two can be written
exactly if both can, and its file is theirs one after the other. What is only declared can always be
written, and each declaration leaves what `Contributes` says. -/
theorem program_append (cx : Context) :
    (∀ p q : Program,
      ((∃ whole, Leaves cx (p ++ q) whole) ↔
        (∃ first, Leaves cx p first) ∧ ∃ second, Leaves cx q second) ∧
      ∀ first second whole, Leaves cx p first → Leaves cx q second → Leaves cx (p ++ q) whole →
        whole.current.text = first.current.text ++ second.current.text ∧
          whole.functions = first.functions ++ second.functions ∧
          whole.classes = first.classes ++ second.classes) ∧
    (∀ decl : Decl, decl.isDeclared = true → Leaves cx ⟨[decl]⟩ (.start cx.layout)) ∧
    ∀ (decl : Decl) (left : Session), Leaves cx ⟨[decl]⟩ left → Contributes cx left decl := by
  refine ⟨fun p q => ?_, ?_, ?_⟩
  · have happend : programOutput cx (p ++ q) = do
        let one ← programOutput cx p
        let two ← programOutput cx q
        return one.append two := declsOutput_append p.decls q.decls
    refine ⟨⟨?_, ?_⟩, ?_⟩
    · rintro ⟨whole, hwhole⟩
      obtain ⟨output, houtput, -⟩ := leaves_iff.mp hwhole
      rw [happend] at houtput
      obtain ⟨one, hone, houtput⟩ := Lowered.bind_eq_ok.mp houtput
      obtain ⟨two, htwo, -⟩ := Lowered.bind_eq_ok.mp houtput
      exact ⟨⟨_, leaves_iff.mpr ⟨one, hone, rfl⟩⟩, _, leaves_iff.mpr ⟨two, htwo, rfl⟩⟩
    · rintro ⟨⟨first, hfirst⟩, second, hsecond⟩
      obtain ⟨one, hone, rfl⟩ := leaves_iff.mp hfirst
      obtain ⟨two, htwo, rfl⟩ := leaves_iff.mp hsecond
      refine ⟨_, leaves_iff.mpr ⟨one.append two, ?_, rfl⟩⟩
      simp only [happend, hone, htwo, bind, Except.bind, pure, Except.pure]
    · intro first second whole hfirst hsecond hwhole
      obtain ⟨one, hone, rfl⟩ := leaves_iff.mp hfirst
      obtain ⟨two, htwo, rfl⟩ := leaves_iff.mp hsecond
      obtain ⟨output, houtput, rfl⟩ := leaves_iff.mp hwhole
      simp only [happend, hone, htwo, bind, Except.bind, pure, Except.pure] at houtput
      cases houtput
      exact gain_append one two
  · intro decl hdeclared
    refine leaves_iff.mpr ⟨.empty, ?_, gain_empty.symm⟩
    have hsilent : declOutput cx decl = .ok .empty := by
      cases decl with
      | importDecl span decl => cases hdeclared
      | classDecl span decl => exact if_pos hdeclared
      | functionDecl span decl => exact if_pos hdeclared
      | interfaceDecl span decl => rfl
      | typeAlias span name => rfl
      | moduleDecl span decorators declared name body => exact if_pos hdeclared
    simp only [programOutput, declsOutput, hsilent, bind, Except.bind, pure, Except.pure]
    rfl
  · intro decl left hleft
    obtain ⟨output, houtput, rfl⟩ := leaves_iff.mp hleft
    obtain ⟨one, hone, houtput⟩ := Lowered.bind_eq_ok.mp houtput
    obtain ⟨two, htwo, houtput⟩ := Lowered.bind_eq_ok.mp houtput
    cases htwo
    obtain rfl := Lowered.pure_eq_ok.mp houtput
    have hone' : one.append .empty = one := by simp [Output.append, Output.empty]
    rw [hone']
    exact declOutput_contributes hone

def vectors : Program := ⟨[Build.importWhole "vector" "v"]⟩

def counters : Program :=
  ⟨[Build.classOf "Counter" [Build.field "count" (Build.keyword .number),
    Build.method Spelling.destructor [] Build.void [],
    Build.method "reset" [] Build.void [Build.ret none]]]⟩

/-- An include and a class, in one file and in two. Of the two methods, the destructor has no
receiver function. -/
theorem program_append_counter :
    ∃ cx first second whole, Leaves cx vectors first ∧ Leaves cx counters second ∧
      Leaves cx (vectors ++ counters) whole ∧
      whole.functions = first.functions ++ second.functions ∧ first.functions = [] ∧
      ∃ record, second.classes = [record] ∧
        second.functions.map (·.name) = [Naming.receiverFunction record.name "reset"] := by
  let options : Options := { passes := { receiver := true } }
  have hwritten : (Model.build counters []).toOption.any (fun model : TypedModel =>
      (programOutput ⟨model, options⟩ vectors).toOption.isSome &&
        (programOutput ⟨model, options⟩ counters).toOption.isSome) = true := by decide +kernel
  obtain ⟨model, -, hboth⟩ := (Option.any_eq_true _ _).mp hwritten
  obtain ⟨hvectors, hcounters⟩ := Bool.and_eq_true_iff.mp hboth
  obtain ⟨one, hone⟩ := Option.isSome_iff_exists.mp hvectors
  obtain ⟨two, htwo⟩ := Option.isSome_iff_exists.mp hcounters
  have hfirst : Leaves ⟨model, options⟩ vectors _ :=
    leaves_iff.mpr ⟨one, Lowered.toOption_eq_some.mp hone, rfl⟩
  have hsecond : Leaves ⟨model, options⟩ counters _ :=
    leaves_iff.mpr ⟨two, Lowered.toOption_eq_some.mp htwo, rfl⟩
  obtain ⟨happend, -, hcontributes⟩ := program_append ⟨model, options⟩
  obtain ⟨hiff, hparts⟩ := happend vectors counters
  obtain ⟨whole, hwhole⟩ := hiff.mpr ⟨⟨_, hfirst⟩, _, hsecond⟩
  obtain ⟨-, hfunctions, -⟩ := hparts _ _ whole hfirst hsecond hwhole
  obtain ⟨-, record, hrecord, hnames⟩ := hcontributes _ _ hsecond
  exact ⟨_, _, _, whole, hfirst, hsecond, hwhole, hfunctions, (hcontributes _ _ hfirst).1, record,
    hrecord, hnames⟩

end Emit
end NativeLowering
