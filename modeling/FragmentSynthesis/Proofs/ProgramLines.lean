import FragmentSynthesis.Proofs.NameImages
import FragmentSynthesis.Proofs.PlacedStatements
import FragmentSynthesis.Proofs.UnbrokenText

namespace FragmentSynthesis.Proofs.ProgramLines

open FragmentSynthesis.Expression
open FragmentSynthesis.ExpressionText
open FragmentSynthesis.Layout
open FragmentSynthesis.NameSets
open FragmentSynthesis.OrderedMaps
open FragmentSynthesis.Programs
open FragmentSynthesis.Proofs.NameImages (namesInHead)
open FragmentSynthesis.Proofs.PlacedStatements
open FragmentSynthesis.Proofs.RenderedOutlines
open FragmentSynthesis.Proofs.SameLines
open FragmentSynthesis.Proofs.UniqueDecoding
open FragmentSynthesis.Proofs.UnbrokenText
open FragmentSynthesis.Scopes
open FragmentSynthesis.Statement
open FragmentSynthesis.StatementText
open FragmentSynthesis.StoppingChanges
open FragmentSynthesis.TypeName

mutual

/-- The names and types that the text of a statement shows. -/
def shownInStmt : Stmt → List String
  | .assign _ target value => shownIn target ++ shownIn value
  | .call _ function => shownIn function
  | .branch _ test body => shownInTest test ++ shownInBlock body
  | .loop _ head test body => namesInHead head ++ (shownInTest test ++ shownInBlock body)
  | .foreach _ name type container body =>
      name :: type :: (shownIn container ++ shownInBlock body)
  | .foreign _ => []

def shownInBlock : List Stmt → List String
  | [] => []
  | s :: rest => shownInStmt s ++ shownInBlock rest

end

mutual

theorem shownInStmt_placed (s : Stmt) (depth : Int) :
    shownInStmt (placed depth s) = shownInStmt s := by
  cases s with
  | branch indent test body => rw [placed, shownInStmt, shownInStmt, shownInBlock_placedBlock]
  | loop indent head test body => rw [placed, shownInStmt, shownInStmt, shownInBlock_placedBlock]
  | foreach indent name type container body =>
      rw [placed, shownInStmt, shownInStmt, shownInBlock_placedBlock]
  | _ => rfl

theorem shownInBlock_placedBlock (body : List Stmt) (depth : Int) :
    shownInBlock (placedBlock depth body) = shownInBlock body := by
  cases body with
  | nil => rfl
  | cons s rest =>
      rw [placedBlock, shownInBlock, shownInBlock, shownInStmt_placed, shownInBlock_placedBlock]

end

/-- The names and types of declared variables. -/
def shownInEntries (entries : List (String × String)) : List String :=
  entries.flatMap fun entry => [entry.1, entry.2]

/-- The names and types that the text of a program shows. -/
def shownInProgram (p : Program) : List String :=
  p.name :: p.returnType :: (shownInEntries p.scope.parameters.entries
    ++ (shownInEntries p.scope.locals.entries ++ (p.scope.counters.names
      ++ (shownInBlock p.statements ++ p.result.toList.flatMap shownIn))))

theorem shownInProgram_placedProgram (p : Program) :
    shownInProgram (placedProgram p) = shownInProgram p := by
  have hblock := shownInBlock_placedBlock p.statements 1
  simp only [shownInProgram, placedProgram, hblock]
  rfl

/-- Lines that are ended one by one. -/
def ended (lines : List (List Char)) : List Char :=
  lines.flatMap (· ++ ['\n'])

@[simp] theorem ended_append (lines others : List (List Char)) :
    ended (lines ++ others) = ended lines ++ ended others :=
  List.flatMap_append

@[simp] theorem ended_cons (line : List Char) (lines : List (List Char)) :
    ended (line :: lines) = line ++ '\n' :: ended lines := by
  simp [ended]

@[simp] theorem ended_nil : ended [] = [] := rfl

/-- The margin of a depth. -/
def spaces (depth : Nat) : List Char :=
  List.replicate (4 * depth) ' '

theorem toList_margin (depth : Nat) : (margin depth).toList = spaces depth := by
  rw [margin, String.toList_ofList, Int.toNat_natCast, spaces]

/-- Assignments and calls. -/
def isSingle : Stmt → Bool
  | .assign .. => true
  | .call .. => true
  | _ => false

def isBlock (s : Stmt) : Bool :=
  (block? s).isSome

mutual

/-- The lines of a statement at a depth. An assignment or a call is one line, its text. A block is a
header line that opens a brace, the lines of its statements one deeper, and a line that closes the
brace. -/
inductive Lines (style : NameStyle) : Nat → Stmt → List (List Char) → Prop
  | single {depth : Nat} {s : Stmt} {text : String} {shown : List Char}
      (hsingle : isSingle s = true) (htext : renderStmt style s = .ok text)
      (hline : text.toList = ended [spaces depth ++ shown]) :
      Lines style depth s [spaces depth ++ shown]
  | block {depth : Nat} {s : Stmt} {body : List Stmt} {lines : List (List Char)}
      (header : List Char) (hblock : block? s = some body)
      (hlines : BlockLines style (depth + 1) body lines) :
      Lines style depth s ((spaces depth ++ header ++ [' ', '\x7b'])
        :: (lines ++ [spaces depth ++ ['\x7d']]))

/-- The lines of the statements of a block, in their order. -/
inductive BlockLines (style : NameStyle) : Nat → List Stmt → List (List Char) → Prop
  | nil {depth : Nat} : BlockLines style depth [] []
  | cons {depth : Nat} {s : Stmt} {rest : List Stmt} {first others : List (List Char)}
      (hfirst : Lines style depth s first) (hothers : BlockLines style depth rest others) :
      BlockLines style depth (s :: rest) (first ++ others)

end

/-- One line for each assignment or call and two for each block. -/
def lineCount (listing : List (Nat × Stmt)) : Nat :=
  listing.countP (fun entry => isSingle entry.2) + 2 * listing.countP (fun entry => isBlock entry.2)

theorem lineCount_append (listing other : List (Nat × Stmt)) :
    lineCount (listing ++ other) = lineCount listing + lineCount other := by
  rw [lineCount, lineCount, lineCount, List.countP_append, List.countP_append]
  omega

theorem lineCount_nesting_block {s : Stmt} {body : List Stmt} (h : block? s = some body)
    (enclosing : Nat) :
    lineCount (nesting enclosing s) = 2 + lineCount (nestingOfBlock (enclosing + 1) body) := by
  have hfirst {s : Stmt} (hsingle : isSingle s = false) (hblock : isBlock s = true) :
      lineCount [(enclosing, s)] = 2 := by
    simp [lineCount, hsingle, hblock]
  cases s with
  | branch | loop | foreach =>
      cases h
      rw [nesting, ← List.singleton_append, lineCount_append, hfirst rfl rfl]
  | _ => cases h

theorem length_of_lines {style : NameStyle} {depth : Nat} {s : Stmt} {lines : List (List Char)}
    (h : Lines style depth s lines) (enclosing : Nat) :
    lines.length = lineCount (nesting enclosing s) := by
  induction h using Lines.rec (motive_2 := fun _ body lines _ => ∀ enclosing,
    lines.length = lineCount (nestingOfBlock enclosing body)) generalizing enclosing with
  | @single _ s _ _ hsingle _ _ =>
      cases s with
      | assign | call => rfl
      | _ => cases hsingle
  | block _ hblock _ ih =>
      rw [lineCount_nesting_block hblock, ← ih, List.length_cons, List.length_append,
        List.length_singleton]
      omega
  | nil => rfl
  | cons _ _ ih ih' =>
      rw [nestingOfBlock, lineCount_append, List.length_append, ih, ih']

theorem length_of_blockLines {style : NameStyle} {depth : Nat} {body : List Stmt}
    {lines : List (List Char)} (h : BlockLines style depth body lines) (enclosing : Nat) :
    lines.length = lineCount (nestingOfBlock enclosing body) := by
  induction body generalizing lines with
  | nil =>
      cases h
      rfl
  | cons s rest ih =>
      cases h with
      | cons hfirst hothers =>
          rw [nestingOfBlock, lineCount_append, List.length_append,
            length_of_lines hfirst enclosing, ih hothers]

/-- A text is written by lines, each ended by the only line break in it. -/
structure Written (text : String) (lines : List (List Char)) : Prop where
  toList_eq : text.toList = ended lines
  unbroken : ∀ line ∈ lines, '\n' ∉ line

theorem written_empty : Written "" [] :=
  ⟨rfl, List.forall_mem_nil _⟩

theorem Written.append {text other : String} {lines others : List (List Char)}
    (h : Written text lines) (h' : Written other others) :
    Written (text ++ other) (lines ++ others) := by
  constructor
  · rw [String.toList_append, h.toList_eq, h'.toList_eq, ended_append]
  · exact List.forall_mem_append.mpr ⟨h.unbroken, h'.unbroken⟩

theorem written_line {text : String} {line : List Char} (htext : text.toList = line ++ ['\n'])
    (hline : '\n' ∉ line) : Written text [line] := by
  constructor
  · rw [htext, ended_cons, ended_nil]
  · exact List.forall_mem_singleton.mpr hline

theorem newline_notMem_spaces (depth : Nat) : '\n' ∉ spaces depth :=
  fun h => absurd (List.eq_of_mem_replicate h) (by decide)

variable {style : NameStyle}

theorem exists_lines_of_single {s : Stmt} (hsingle : isSingle s = true) {depth : Nat}
    {shown : String} (hshown : Unbroken shown)
    (htext : renderStmt style s = .ok (margin depth ++ shown ++ ";\n")) :
    ∃ lines, Lines style depth s lines ∧ Written (margin depth ++ shown ++ ";\n") lines := by
  have hlist : (margin depth ++ shown ++ ";\n").toList =
      (spaces depth ++ (shown.toList ++ [';'])) ++ ['\n'] := by
    simp [toList_margin]
  have hline : '\n' ∉ spaces depth ++ (shown.toList ++ [';']) := by
    simp [newline_notMem_spaces, show '\n' ∉ shown.toList from hshown]
  have hwritten := written_line hlist hline
  exact ⟨_, .single hsingle htext hwritten.toList_eq, hwritten⟩

theorem exists_lines_of_block {s : Stmt} {body : List Stmt} (hblock : block? s = some body)
    {depth : Nat} {header inner : String} (hheader : Unbroken header)
    (hbody : ∃ lines, BlockLines style (depth + 1) body lines ∧ Written inner lines) :
    ∃ lines, Lines style depth s lines ∧ Written (blockText depth header inner) lines := by
  obtain ⟨lines, hlines, hinner⟩ := hbody
  refine ⟨_, .block header.toList hblock hlines, ?_, ?_⟩
  · simp [blockText, toList_margin, hinner.toList_eq]
  · have hfirst : '\n' ∉ spaces depth ++ header.toList ++ [' ', '\x7b'] := by
      simp [newline_notMem_spaces, show '\n' ∉ header.toList from hheader]
    have hlast : '\n' ∉ spaces depth ++ ['\x7d'] := by
      simp [newline_notMem_spaces]
    exact List.forall_mem_cons.mpr ⟨hfirst, List.forall_mem_append.mpr
      ⟨hinner.unbroken, List.forall_mem_singleton.mpr hlast⟩⟩

theorem onOneLine_targetName (target : Expr) (hnames : ∀ name ∈ shownIn target, Unbroken name) :
    OnOneLine (targetName style target) := by
  cases target with
  | «variable» name type => exact onOneLine_ok (hnames name List.mem_cons_self)
  | use component receiver args =>
      have hcomponent : ∀ name ∈ componentNames component, Unbroken name := by
        cases receiver <;> exact (List.forall_mem_append.mp hnames).1
      exact onOneLine_ok (unbroken_displayName hcomponent style)
  | _ => exact onOneLine_error _

theorem unbroken_loopHeader {head : LoopHead} (hhead : ∀ name ∈ namesInHead head, Unbroken name)
    {test : String} (htest : Unbroken test) : Unbroken (loopHeader head test) := by
  have hsigns : Unbroken "for (" ∧ Unbroken "for (int " ∧ Unbroken " = 0; " ∧ Unbroken "; " ∧
      Unbroken "++)" ∧ Unbroken "while (" ∧ Unbroken ")" := by
    decide
  cases head with
  | counting counter declared =>
      have hcounter := hhead counter List.mem_cons_self
      cases declared <;> simp [loopHeader, htest, hcounter, hsigns]
  | testing counter => simp [loopHeader, htest, hsigns]

mutual

theorem exists_lines (s : Stmt) (hknown : s.isKnown = true)
    (hnames : ∀ name ∈ shownInStmt s, Unbroken name) (depth : Nat) (hdepth : AtDepth depth s)
    {text : String} (h : renderStmt style s = .ok text) :
    ∃ lines, Lines style depth s lines ∧ Written text lines := by
  cases s with
  | assign indent target value =>
      obtain ⟨-, hvalueKnown⟩ := Bool.and_eq_true_iff.mp hknown
      obtain ⟨htarget, hvalue⟩ := List.forall_mem_append.mp hnames
      obtain rfl : indent = depth := hdepth
      have hrender := h
      obtain ⟨name, hname, h⟩ := ok_of_bind h
      obtain ⟨shown, hshown, h⟩ := ok_of_bind h
      have hsign : Unbroken " = " := by decide
      have hunbroken : Unbroken (name ++ " = " ++ shown) := by
        simp [onOneLine_targetName target htarget name hname,
          onOneLine_render value hvalueKnown hvalue shown hshown, hsign]
      have htext : text = margin depth ++ (name ++ " = " ++ shown) ++ ";\n" := by
        rw [← Except.ok.inj h]
        simp only [String.append_assoc]
      subst htext
      exact exists_lines_of_single rfl hunbroken hrender
  | call indent function =>
      obtain rfl : indent = depth := hdepth
      have hrender := h
      obtain ⟨shown, hshown, h⟩ := ok_of_bind h
      obtain rfl := Except.ok.inj h
      exact exists_lines_of_single rfl (onOneLine_render function hknown hnames shown hshown)
        hrender
  | branch indent test body =>
      obtain ⟨htestKnown, hbodyKnown⟩ := Bool.and_eq_true_iff.mp hknown
      obtain ⟨htest, hbody⟩ := List.forall_mem_append.mp hnames
      obtain ⟨rfl, hblockDepth⟩ := hdepth
      obtain ⟨shown, hshown, h⟩ := ok_of_bind h
      obtain ⟨inner, hinner, h⟩ := ok_of_bind h
      obtain rfl := Except.ok.inj h
      have hsigns : Unbroken "if (" ∧ Unbroken ")" := by decide
      refine exists_lines_of_block rfl ?_
        (exists_blockLines body hbodyKnown hbody (depth + 1) hblockDepth hinner)
      simp [onOneLine_renderTest test htestKnown htest shown hshown, hsigns]
  | loop indent head test body =>
      obtain ⟨htestKnown, hbodyKnown⟩ := Bool.and_eq_true_iff.mp hknown
      obtain ⟨hhead, hothers⟩ := List.forall_mem_append.mp hnames
      obtain ⟨htest, hbody⟩ := List.forall_mem_append.mp hothers
      obtain ⟨rfl, hblockDepth⟩ := hdepth
      obtain ⟨shown, hshown, h⟩ := ok_of_bind h
      obtain ⟨inner, hinner, h⟩ := ok_of_bind h
      obtain rfl := Except.ok.inj h
      exact exists_lines_of_block rfl
        (unbroken_loopHeader hhead (onOneLine_renderTest test htestKnown htest shown hshown))
        (exists_blockLines body hbodyKnown hbody (depth + 1) hblockDepth hinner)
  | foreach indent name type container body =>
      obtain ⟨hcontainerKnown, hbodyKnown⟩ := Bool.and_eq_true_iff.mp hknown
      obtain ⟨hname, hothers⟩ := List.forall_mem_cons.mp hnames
      obtain ⟨htype, hothers⟩ := List.forall_mem_cons.mp hothers
      obtain ⟨hcontainer, hbody⟩ := List.forall_mem_append.mp hothers
      obtain ⟨rfl, hblockDepth⟩ := hdepth
      obtain ⟨shown, hshown, h⟩ := ok_of_bind h
      obtain ⟨inner, hinner, h⟩ := ok_of_bind h
      obtain rfl := Except.ok.inj h
      have hsigns : Unbroken "for (" ∧ Unbroken " " ∧ Unbroken " : " ∧ Unbroken ")" := by decide
      refine exists_lines_of_block rfl ?_
        (exists_blockLines body hbodyKnown hbody (depth + 1) hblockDepth hinner)
      simp [onOneLine_render container hcontainerKnown hcontainer shown hshown, hname,
        unbroken_styled htype, hsigns]
  | foreign f => cases hknown

theorem exists_blockLines (body : List Stmt) (hknown : blockKnown body = true)
    (hnames : ∀ name ∈ shownInBlock body, Unbroken name) (depth : Nat)
    (hdepth : BlockAtDepth depth body) {text : String} (h : renderBlock style body = .ok text) :
    ∃ lines, BlockLines style depth body lines ∧ Written text lines := by
  cases body with
  | nil =>
      obtain rfl := Except.ok.inj h
      exact ⟨[], .nil, written_empty⟩
  | cons s rest =>
      obtain ⟨hs, hrest⟩ := Bool.and_eq_true_iff.mp hknown
      obtain ⟨hsNames, hrestNames⟩ := List.forall_mem_append.mp hnames
      obtain ⟨first, hfirst, h⟩ := ok_of_bind h
      obtain ⟨others, hothers, h⟩ := ok_of_bind h
      obtain rfl := Except.ok.inj h
      obtain ⟨lines, hlines, hwritten⟩ := exists_lines s hs hsNames depth hdepth.1 hfirst
      obtain ⟨lines', hlines', hwritten'⟩ :=
        exists_blockLines rest hrest hrestNames depth hdepth.2 hothers
      exact ⟨_, .cons hlines hlines', hwritten.append hwritten'⟩

end

theorem unbroken_of_mem_entries {entries : List (String × String)}
    (h : ∀ name ∈ shownInEntries entries, Unbroken name) :
    ∀ entry ∈ entries, Unbroken entry.1 ∧ Unbroken entry.2 := by
  intro entry hentry
  have hmem {name : String} (hname : name ∈ [entry.1, entry.2]) :
      name ∈ shownInEntries entries := List.mem_flatMap.mpr ⟨entry, hentry, hname⟩
  exact ⟨h _ (hmem (by simp)), h _ (hmem (by simp))⟩

theorem written_concat_map {α : Type} {f : α → String} {line : α → List Char} {l : List α}
    (h : ∀ a ∈ l, Written (f a) [line a]) : Written (concat (l.map f)) (l.map line) := by
  induction l with
  | nil => exact written_empty
  | cons a l ih =>
      obtain ⟨ha, hl⟩ := List.forall_mem_cons.mp h
      exact ha.append (ih hl)

/-- The line that declares a counter outside of loops. -/
def counterLine (name : String) : List Char :=
  ("    int " ++ name ++ " = 0;").toList

theorem written_counterText {name : String} (h : Unbroken name) :
    Written (counterText name) [counterLine name] := by
  have hsigns : Unbroken "    int " ∧ Unbroken " = 0;" := by decide
  refine written_line (by simp [counterText, counterLine]) ?_
  have hline : Unbroken ("    int " ++ name ++ " = 0;") := by simp [h, hsigns]
  exact hline

theorem written_localText {entry : String × String} (hname : Unbroken entry.1)
    (htype : Unbroken entry.2) : Written (localText style entry) [localLine style entry] :=
  written_line (toList_localText style entry) (newline_notMem_localLine style hname htype)

theorem written_headerText {p : Program} (hname : Unbroken p.name)
    (htype : Unbroken p.returnType)
    (hparameters : ∀ entry ∈ p.scope.parameters.entries, Unbroken entry.1 ∧ Unbroken entry.2) :
    Written (headerText style p) [headerLine style p] := by
  have hsigns : Unbroken "public static " ∧ Unbroken " " ∧ Unbroken "(" ∧ Unbroken ") \x7b" := by
    decide
  have hparameter : ∀ text ∈ p.scope.parameters.entries.map (parameterText style),
      Unbroken text := by
    intro text htext
    obtain ⟨entry, hentry, rfl⟩ := List.mem_map.mp htext
    obtain ⟨hfirst, hsecond⟩ := hparameters entry hentry
    simp [parameterText, unbroken_styled hsecond, hfirst, hsigns]
  have hlist := unbroken_intercalate (show Unbroken ", " by decide) hparameter
  refine written_line (toList_headerText style p) ?_
  have hline : Unbroken ("public static " ++ styled style p.returnType ++ " " ++ p.name ++ "("
      ++ ", ".intercalate (p.scope.parameters.entries.map (parameterText style)) ++ ") \x7b") := by
    simp [unbroken_styled htype, hname, hlist, hsigns]
  exact hline

theorem exists_resultLines {result : Option Expr} (hknown : result.all (·.isKnown) = true)
    (hnames : ∀ name ∈ result.toList.flatMap shownIn, Unbroken name) {text : String}
    (h : resultText style result = .ok text) :
    ∃ lines, lines.length = (if result.isSome then 1 else 0) ∧ Written text lines := by
  cases result with
  | none =>
      obtain rfl := Except.ok.inj h
      exact ⟨[], rfl, written_empty⟩
  | some e =>
      obtain ⟨shown, hshown, h⟩ := ok_of_bind h
      obtain rfl := Except.ok.inj h
      have hnames : ∀ name ∈ shownIn e, Unbroken name := by simpa using hnames
      have hunbroken := onOneLine_render e hknown hnames shown hshown
      have hsigns : Unbroken "    return " ∧ Unbroken ";" := by decide
      have hline : Unbroken ("    return " ++ shown ++ ";") := by simp [hunbroken, hsigns]
      have htext : ("    return " ++ shown ++ ";\n").toList =
          ("    return " ++ shown ++ ";").toList ++ ['\n'] := by simp
      exact ⟨_, rfl, written_line htext hline⟩

/-- The header of a program and the lines that declare its locals and its counters. -/
def frontLines (style : NameStyle) (p : Program) : List (List Char) :=
  headerLine style p :: (localLines style p ++ p.scope.counters.sorted.map counterLine)

theorem length_frontLines (style : NameStyle) (p : Program) :
    (frontLines style p).length = 1 + p.scope.locals.size + p.scope.counters.names.length := by
  have hlocals : (localLines style p).length = p.scope.locals.size := List.length_map _
  have hcounters : p.scope.counters.sorted.length = p.scope.counters.names.length :=
    (List.mergeSort_perm _ _).length_eq
  rw [frontLines, List.length_cons, List.length_append, List.length_map, hlocals, hcounters]
  omega

theorem written_front {p : Program} (hheader : Written (headerText style p) [headerLine style p])
    (hlocals : ∀ name ∈ shownInEntries p.scope.locals.entries, Unbroken name)
    (hcounters : ∀ name ∈ p.scope.counters.names, Unbroken name) :
    Written (headerText style p ++ (concat (p.scope.locals.entries.map (localText style))
      ++ concat (p.scope.counters.sorted.map counterText))) (frontLines style p) := by
  refine hheader.append (Written.append ?_ ?_)
  · refine written_concat_map fun entry hentry => ?_
    obtain ⟨hname, htype⟩ := unbroken_of_mem_entries hlocals entry hentry
    exact written_localText hname htype
  · refine written_concat_map fun name hname => ?_
    exact written_counterText (hcounters name ((mem_sorted _ _).mp hname))

/-- The text of a program by its lines. Those of its statements, at depth one, stand between the
header with the declarations in front of them and the line that returns the result, if there is one,
with the closing brace behind them. -/
structure WellLaidOut (style : NameStyle) (p : Program) (text : String)
    (body back : List (List Char)) : Prop where
  written : Written text (frontLines style p ++ (body ++ back))
  ends : text.toList.getLast? = some '\n'
  body_lines : BlockLines style 1 p.statements body
  back_length : back.length = (if p.returns then 1 else 0) + 1
  length : (frontLines style p ++ (body ++ back)).length =
    2 + p.scope.locals.size + p.scope.counters.names.length
      + (nestingOfBlock 0 p.statements).countP (fun entry => isSingle entry.2)
      + 2 * (nestingOfBlock 0 p.statements).countP (fun entry => isBlock entry.2)
      + (if p.returns then 1 else 0)

theorem exists_wellLaidOut {p : Program} (hknown : p.isKnown = true)
    (hnames : ∀ name ∈ shownInProgram p, Unbroken name) (hdepth : BlockAtDepth 1 p.statements)
    {text : String} (h : renderProgram style p = .ok text) :
    ∃ body back, WellLaidOut style p text body back := by
  obtain ⟨hstatements, hresult⟩ := Bool.and_eq_true_iff.mp hknown
  simp only [shownInProgram, List.forall_mem_cons, List.forall_mem_append] at hnames
  obtain ⟨hname, htype, hparameters, hlocals, hcounters, hbody, hresultNames⟩ := hnames
  rw [renderProgram_eq] at h
  obtain ⟨statements, hblock, h⟩ := ok_of_bind h
  obtain ⟨result, hreturn, h⟩ := ok_of_bind h
  obtain rfl := Except.ok.inj h
  have hheader : Written (headerText style p) [headerLine style p] :=
    written_headerText hname htype (unbroken_of_mem_entries hparameters)
  have hfront := written_front hheader hlocals hcounters
  obtain ⟨body, hbodyLines, hbodyText⟩ :=
    exists_blockLines p.statements hstatements hbody 1 hdepth hblock
  obtain ⟨resultLines, hresultLength, hresultText⟩ :=
    exists_resultLines hresult hresultNames hreturn
  have hend : Written "\x7d\n" [['\x7d']] := written_line rfl (by decide)
  have hbackLength : (resultLines ++ [['\x7d']]).length = (if p.returns then 1 else 0) + 1 := by
    rw [List.length_append, hresultLength]
    rfl
  refine ⟨body, resultLines ++ [['\x7d']], ?_, ?_, hbodyLines, hbackLength, ?_⟩
  · have hwritten := hfront.append (hbodyText.append (hresultText.append hend))
    simp only [afterLocals, String.append_assoc] at hwritten ⊢
    exact hwritten
  · simp [afterLocals]
  · have hlength := length_of_blockLines hbodyLines 0
    rw [lineCount] at hlength
    rw [List.length_append, List.length_append, length_frontLines, hbackLength, hlength]
    omega

theorem exists_renderProgram_placedProgram {p : Program} {text : String}
    (h : renderProgram style p = .ok text) :
    ∃ text', renderProgram style (placedProgram p) = .ok text' := by
  rw [renderProgram_eq] at h
  obtain ⟨statements, hblock, h⟩ := ok_of_bind h
  obtain ⟨result, hresult, -⟩ := ok_of_bind h
  obtain ⟨statements', hblock'⟩ := exists_renderBlock_placedBlock style p.statements 1 hblock
  rw [renderProgram_eq]
  simp only [placedProgram, hblock', hresult]
  exact ⟨_, rfl⟩

/-- Laying out a known program puts every statement one deeper than the number of blocks around it.
Doing it again changes nothing, and no measure of the program changes. If the program has a text and
no name in it breaks a line, then its text is well laid out, whatever its constants are. -/
theorem wellLaidOut_of_layOut {p : Program} (hknown : p.isKnown = true)
    (hnames : ∀ name ∈ shownInProgram p, Unbroken name) :
    let q := placedProgram p
    (finish (layOutProgram p) = (q, none) ∧ finish (layOutProgram q) = (q, none)) ∧
      (∀ entry ∈ nestingOfBlock 0 q.statements, entry.2.indent = entry.1 + 1) ∧
      SameProgramMeasures p q ∧
      ∀ style text, renderProgram style p = .ok text →
        ∃ text' body back, renderProgram style q = .ok text' ∧
          WellLaidOut style q text' body back := by
  intro q
  obtain ⟨hstatements, hresult⟩ := Bool.and_eq_true_iff.mp hknown
  have hplaced : blockKnown q.statements = true :=
    (sameMeasures_placedBlock p.statements 1).known.trans hstatements
  have hdepth : BlockAtDepth 1 q.statements := blockAtDepth_placed p.statements 1
  have hagain : placedProgram q = q := placedProgram_placedProgram p
  have hsecond : finish (layOutProgram q) = (q, none) := by
    rw [finish_layOutProgram hplaced, hagain]
  refine ⟨⟨finish_layOutProgram hstatements, hsecond⟩,
    indent_of_nestingOfBlock q.statements hplaced 0 hdepth, sameMeasures_placedProgram p, ?_⟩
  intro style text htext
  obtain ⟨text', htext'⟩ := exists_renderProgram_placedProgram htext
  have hknown' : q.isKnown = true := Bool.and_eq_true_iff.mpr ⟨hplaced, hresult⟩
  have hnames' : ∀ name ∈ shownInProgram q, Unbroken name := by
    rw [shownInProgram_placedProgram]
    exact hnames
  obtain ⟨body, back, hlaid⟩ := exists_wellLaidOut hknown' hnames' hdepth htext'
  exact ⟨text', body, back, htext', hlaid⟩

/-- Statements whose depths are wrong, around a text with a line break and a test that is open. -/
def misplaced : Program where
  returnType := "java.lang.String"
  scope :=
    { Scope.ofParameters "label" (OrderedMap.ofList [("xs", "java.lang.String[]")]) with
      locals := OrderedMap.ofList [("text", "java.lang.String")]
      counters := NameSet.ofList ["i"] }
  statements :=
    [.loop 5 (.counting "i" false)
      (.concrete (.binary .lt (.variable "i" "int") (.literal (.int 3) "int")))
      [.branch 0 (.angelic (some (.variable "b" "boolean")))
        [.assign 1 (.variable "text" "java.lang.String")
          (.literal (.text "\x7b\n\x7d") "java.lang.String")],
      .foreach 1 "x" "java.lang.String" (.variable "xs" "java.lang.String[]") []]]
  result := some (.variable "text" "java.lang.String")

theorem wellLaidOut_misplaced :
    let q := placedProgram misplaced
    let text := "public static String label(String[] xs) \x7b\n    String text = null;\n"
      ++ "    int i = 0;\n                    for (i = 0; i < 3; i++) \x7b\n"
      ++ "if (/* angelic */ b) \x7b\n    text = \"\x7b\\n\x7d\";\n\x7d\n"
      ++ "    for (String x : xs) \x7b\n    \x7d\n                    \x7d\n"
      ++ "    return text;\n\x7d\n"
    let text' := "public static String label(String[] xs) \x7b\n    String text = null;\n"
      ++ "    int i = 0;\n    for (i = 0; i < 3; i++) \x7b\n"
      ++ "        if (/* angelic */ b) \x7b\n            text = \"\x7b\\n\x7d\";\n        \x7d\n"
      ++ "        for (String x : xs) \x7b\n        \x7d\n    \x7d\n    return text;\n\x7d\n"
    (misplaced.isKnown = true ∧ ∀ name ∈ shownInProgram misplaced, Unbroken name) ∧
      finish (layOutProgram misplaced) = (q, none) ∧
      renderProgram .simple misplaced = .ok text ∧ renderProgram .simple q = .ok text' ∧
      ∃ body back, WellLaidOut .simple q text' body back := by
  intro q text text'
  have hknown : misplaced.isKnown = true := by decide
  have hnames : ∀ name ∈ shownInProgram misplaced, Unbroken name := by decide
  have hcounters : misplaced.scope.counters.sorted = ["i"] :=
    sortNames_eq (List.Perm.refl _) (List.pairwise_singleton _ _)
  have htext : renderProgram .simple misplaced = .ok text := by
    rw [renderProgram, hcounters]
    decide +kernel
  have hcounters' : q.scope.counters.sorted = ["i"] := hcounters
  have htext' : renderProgram .simple q = .ok text' := by
    rw [renderProgram, hcounters']
    decide +kernel
  obtain ⟨⟨hfirst, -⟩, -, -, hlaid⟩ := wellLaidOut_of_layOut hknown hnames
  obtain ⟨shown, body, back, hshown, hback⟩ := hlaid .simple text htext
  obtain rfl := Except.ok.inj (hshown.symm.trans htext')
  exact ⟨⟨hknown, hnames⟩, hfirst, htext, hshown, body, back, hback⟩

end FragmentSynthesis.Proofs.ProgramLines
