import FragmentSynthesis.Proofs.SourceTokens

/-!
The grammar of source expressions. A term of some level is derived from tokens; assignments bind
least and associate to the right, binary operators have the levels of their precedence and
associate to the left, prefix operators bind tighter, and calls, indices and lengths the tightest.
A reader with a stack of open operators comes to the tree of every derivation, so that no sequence
of tokens has two of them.
-/

namespace FragmentSynthesis.Proofs.SourceGrammar

open FragmentSynthesis.Operators
open FragmentSynthesis.Proofs.SourceTokens

/-- What is read from source text. The last form is read from none. -/
inductive Tree
  | name (x : String)
  | number (n : Nat)
  | unary (op : UnaryOp) (operand : Tree)
  | binary (op : BinaryOp) (left right : Tree)
  | call (receiver : Tree) (method : String) (args : List Tree)
  | index (array i : Tree)
  | store (array i value : Tree)
  | length (array : Tree)
  | unreadable

/-- The token of an operator in front of its operand. -/
def prefixToken : UnaryOp → Token
  | .not => .bang
  | .neg => .operator .sub

/-- A term that binds at least at some level, or the arguments of a call. -/
inductive Phrase
  | term (level : Nat) (t : Tree)
  | arguments (ts : List Tree)

/-- One rule for each form, with the levels that its parts need. A tighter term can stand wherever a
looser one can. -/
inductive Derives : Phrase → List Token → Prop
  | name (x : String) : Derives (.term Precedence.atom.level (.name x)) [.word x]
  | number (n : Nat) : Derives (.term Precedence.atom.level (.number n)) [.number n]
  | group {t : Tree} {ts : List Token} (inner : Derives (.term Precedence.assignment.level t) ts) :
      Derives (.term Precedence.atom.level t) (.openParen :: (ts ++ [.closeParen]))
  | call {receiver : Tree} {args : List Tree} {ts us : List Token} (method : String)
      (first : Derives (.term Precedence.dot.level receiver) ts)
      (rest : Derives (.arguments args) us) :
      Derives (.term Precedence.dot.level (.call receiver method args))
        (ts ++ .dot :: .word method :: .openParen :: (us ++ [.closeParen]))
  | index {array i : Tree} {ts us : List Token}
      (first : Derives (.term Precedence.dot.level array) ts)
      (inner : Derives (.term Precedence.assignment.level i) us) :
      Derives (.term Precedence.dot.level (.index array i))
        (ts ++ .openBracket :: (us ++ [.closeBracket]))
  | length {array : Tree} {ts : List Token}
      (first : Derives (.term Precedence.dot.level array) ts) :
      Derives (.term Precedence.dot.level (.length array)) (ts ++ [.dot, .word "length"])
  | unary {t : Tree} {ts : List Token} (op : UnaryOp)
      (operand : Derives (.term Precedence.unary.level t) ts) :
      Derives (.term Precedence.unary.level (.unary op t)) (prefixToken op :: ts)
  | binary {t u : Tree} {ts us : List Token} (op : BinaryOp)
      (left : Derives (.term op.precedence.level t) ts)
      (right : Derives (.term (op.precedence.level + 1) u) us) :
      Derives (.term op.precedence.level (.binary op t u)) (ts ++ .operator op :: us)
  | store {array i value : Tree} {ts us : List Token}
      (left : Derives (.term Precedence.dot.level (.index array i)) ts)
      (right : Derives (.term Precedence.assignment.level value) us) :
      Derives (.term Precedence.assignment.level (.store array i value)) (ts ++ .equals :: us)
  | weaken {k level : Nat} {t : Tree} {ts : List Token} (h : k ≤ level)
      (tighter : Derives (.term level t) ts) : Derives (.term k t) ts
  | noArguments : Derives (.arguments []) []
  | lastArgument {t : Tree} {ts : List Token}
      (only : Derives (.term Precedence.assignment.level t) ts) : Derives (.arguments [t]) ts
  | moreArguments {t u : Tree} {args : List Tree} {ts us : List Token}
      (first : Derives (.term Precedence.assignment.level t) ts)
      (rest : Derives (.arguments (u :: args)) us) :
      Derives (.arguments (t :: u :: args)) (ts ++ .comma :: us)

/-- What has been begun and waits for a term to its right. -/
inductive Frame
  | prefixed (op : UnaryOp)
  | infixed (op : BinaryOp) (left : Tree)
  | assigned (array i : Tree)
  | grouped
  | indexed (array : Tree)
  | called (receiver : Tree) (method : String) (done : List Tree)

/-- What an operator makes of the term to its right, and at what level that binds. Brackets wait
until they are closed. -/
def Frame.close? : Frame → Tree → Option (Nat × Tree)
  | .prefixed op, t => some (Precedence.unary.level, .unary op t)
  | .infixed op left, t => some (op.precedence.level, .binary op left t)
  | .assigned array i, t => some (Precedence.assignment.level, .store array i t)
  | _, _ => none

/-- Closes the operators that bind at least at some level. -/
def collapse (level : Nat) : Tree → List Frame → Tree × List Frame
  | t, [] => (t, [])
  | t, f :: stack =>
      match f.close? t with
      | some (k, u) => if level ≤ k then collapse level u stack else (t, f :: stack)
      | none => (t, f :: stack)

/-- One level above assignments, where their left sides end. -/
def targetLevel : Nat :=
  Precedence.assignment.level + 1

/-- Reads on with the term that was read last, if no operator or bracket came since, and the stack
of what has been begun. -/
def resume : Option Tree → List Frame → List Token → Option Tree
  | none, stack, .word x :: ts => resume (some (.name x)) stack ts
  | none, stack, .number n :: ts => resume (some (.number n)) stack ts
  | none, stack, .openParen :: ts => resume none (.grouped :: stack) ts
  | none, stack, .bang :: ts => resume none (.prefixed .not :: stack) ts
  | none, stack, .operator .sub :: ts => resume none (.prefixed .neg :: stack) ts
  | none, .called receiver method [] :: stack, .closeParen :: ts =>
      resume (some (.call receiver method [])) stack ts
  | some t, stack, .dot :: .word method :: .openParen :: ts =>
      resume none (.called t method [] :: stack) ts
  | some t, stack, .dot :: .word x :: ts =>
      if x = "length" then resume (some (.length t)) stack ts else none
  | some t, stack, .openBracket :: ts => resume none (.indexed t :: stack) ts
  | some t, stack, .operator op :: ts =>
      match collapse op.precedence.level t stack with
      | (left, stack) => resume none (.infixed op left :: stack) ts
  | some t, stack, .equals :: ts =>
      match collapse targetLevel t stack with
      | (.index array i, stack) => resume none (.assigned array i :: stack) ts
      | _ => none
  | some t, stack, .closeBracket :: ts =>
      match collapse 0 t stack with
      | (i, .indexed array :: stack) => resume (some (.index array i)) stack ts
      | _ => none
  | some t, stack, .comma :: ts =>
      match collapse 0 t stack with
      | (arg, .called receiver method done :: stack) =>
          resume none (.called receiver method (done ++ [arg]) :: stack) ts
      | _ => none
  | some t, stack, .closeParen :: ts =>
      match collapse 0 t stack with
      | (u, .grouped :: stack) => resume (some u) stack ts
      | (arg, .called receiver method done :: stack) =>
          resume (some (.call receiver method (done ++ [arg]))) stack ts
      | _ => none
  | some t, stack, [] =>
      match collapse 0 t stack with
      | (u, []) => some u
      | _ => none
  | _, _, _ => none

/-- The tree of tokens that are read to their end. -/
def read (ts : List Token) : Option Tree :=
  resume none [] ts

/-- No operator on top of the stack is closed by one that binds at some level or tighter. -/
def Below (level : Nat) (stack : List Frame) : Prop :=
  ∀ k, max targetLevel level ≤ k → k < Precedence.unary.level → ∀ t, collapse k t stack = (t, stack)

theorem Below.mono {k level : Nat} {stack : List Frame} (h : Below k stack) (hle : k ≤ level) :
    Below level stack :=
  fun j hj => h j (Nat.le_trans (max_le (Nat.le_max_left _ _)
    (Nat.le_trans hle (Nat.le_max_right _ _))) hj)

theorem below_nil (level : Nat) : Below level [] :=
  fun _ _ _ _ => rfl

theorem below_of_bracket {f : Frame} (hf : ∀ t, f.close? t = none) (level : Nat)
    (stack : List Frame) : Below level (f :: stack) := by
  intro k _ _ t
  rw [collapse, hf]

theorem collapse_of_le {f : Frame} {t u : Tree} {k level : Nat} {stack : List Frame}
    (hf : f.close? t = some (level, u)) (h : k ≤ level) :
    collapse k t (f :: stack) = collapse k u stack := by
  rw [collapse, hf]
  exact if_pos h

theorem below_of_lt {f : Frame} {k level : Nat} (hf : ∀ t, ∃ u, f.close? t = some (k, u))
    (h : k < max targetLevel level) (stack : List Frame) : Below level (f :: stack) := by
  intro j hj _ t
  obtain ⟨u, hu⟩ := hf t
  rw [collapse, hu]
  exact if_neg (Nat.not_le_of_lt (Nat.lt_of_lt_of_le h hj))

theorem level_lt (op : BinaryOp) :
    targetLevel < op.precedence.level ∧ op.precedence.level < Precedence.unary.level := by
  cases op <;> decide

theorem resume_closeBracket {t i array : Tree} {stack rest : List Frame}
    (h : collapse 0 t stack = (i, .indexed array :: rest)) (ts : List Token) :
    resume (some t) stack (.closeBracket :: ts) = resume (some (.index array i)) rest ts := by
  rw [resume, h]

theorem resume_closeParen {t u : Tree} {stack rest : List Frame}
    (h : collapse 0 t stack = (u, .grouped :: rest)) (ts : List Token) :
    resume (some t) stack (.closeParen :: ts) = resume (some u) rest ts := by
  rw [resume, h]

theorem resume_lastArgument {t arg receiver : Tree} {method : String} {done : List Tree}
    {stack rest : List Frame}
    (h : collapse 0 t stack = (arg, .called receiver method done :: rest)) (ts : List Token) :
    resume (some t) stack (.closeParen :: ts) =
      resume (some (.call receiver method (done ++ [arg]))) rest ts := by
  rw [resume, h]

theorem resume_comma {t arg receiver : Tree} {method : String} {done : List Tree}
    {stack rest : List Frame}
    (h : collapse 0 t stack = (arg, .called receiver method done :: rest)) (ts : List Token) :
    resume (some t) stack (.comma :: ts) =
      resume none (.called receiver method (done ++ [arg]) :: rest) ts := by
  rw [resume, h]

theorem resume_operator {t left : Tree} {stack rest : List Frame} {op : BinaryOp}
    (h : collapse op.precedence.level t stack = (left, rest)) (ts : List Token) :
    resume (some t) stack (.operator op :: ts) = resume none (.infixed op left :: rest) ts := by
  rw [resume, h]

theorem resume_equals {t array i : Tree} {stack rest : List Frame}
    (h : collapse targetLevel t stack = (.index array i, rest)) (ts : List Token) :
    resume (some t) stack (.equals :: ts) = resume none (.assigned array i :: rest) ts := by
  rw [resume, h]

/-- The word after a dot is a method if an argument list follows, and else only a length. -/
theorem resume_length (t : Tree) (stack : List Frame) {ts : List Token}
    (h : ts.head? ≠ some .openParen) :
    resume (some t) stack (.dot :: .word "length" :: ts) = resume (some (.length t)) stack ts := by
  have hlength {a b : Option Tree} : (if "length" = "length" then a else b) = a := if_pos rfl
  cases ts with
  | nil => exact hlength
  | cons c ts =>
      cases c with
      | openParen => exact absurd rfl h
      | _ => exact hlength

theorem resume_prefixToken (op : UnaryOp) (stack : List Frame) (ts : List Token) :
    resume none stack (prefixToken op :: ts) = resume none (.prefixed op :: stack) ts := by
  cases op <;> rfl

/-- From some state on, the reader comes to a term, behind which only operators that bind at least
at its level are open, so that closing them gives the term. At the level of calls none are open. -/
def Reads (level : Nat) (t : Tree) (ts : List Token) : Prop :=
  ∀ stack, Below level stack → ∃ u opened,
    (∀ rest : List Token, rest.head? ≠ some .openParen →
      resume none stack (ts ++ rest) = resume (some u) opened rest) ∧
    (∀ k ≤ level, collapse k u opened = collapse k t stack) ∧
    (Precedence.dot.level ≤ level → u = t ∧ opened = stack)

/-- The reader takes the rest of the arguments in and closes the call. -/
def ReadsArguments (args : List Tree) (ts : List Token) : Prop :=
  ∀ receiver method done stack rest, (args = [] → done = []) →
    resume none (.called receiver method done :: stack) (ts ++ .closeParen :: rest) =
      resume (some (.call receiver method (done ++ args))) stack rest

def ReadsPhrase : Phrase → List Token → Prop
  | .term level t, ts => Reads level t ts
  | .arguments args, ts => ReadsArguments args ts

theorem reads_of_resume {level : Nat} {t : Tree} {ts : List Token}
    (h : ∀ stack, Below level stack → ∀ rest : List Token, rest.head? ≠ some .openParen →
      resume none stack (ts ++ rest) = resume (some t) stack rest) : Reads level t ts :=
  fun stack hstack => ⟨t, stack, h stack hstack, fun _ _ => rfl, fun _ => ⟨rfl, rfl⟩⟩

theorem Reads.resume {t : Tree} {ts : List Token} (h : Reads Precedence.dot.level t ts)
    {stack : List Frame} (hstack : Below Precedence.dot.level stack) {rest : List Token}
    (hrest : rest.head? ≠ some .openParen) :
    resume none stack (ts ++ rest) = SourceGrammar.resume (some t) stack rest := by
  obtain ⟨u, opened, hresume, -, hlone⟩ := h stack hstack
  obtain ⟨rfl, rfl⟩ := hlone (Nat.le_refl _)
  exact hresume rest hrest

theorem Reads.bracketed {level : Nat} {t : Tree} {ts : List Token} (h : Reads level t ts)
    {f : Frame} (hf : ∀ t, f.close? t = none) (stack : List Frame) :
    ∃ u opened, collapse 0 u opened = (t, f :: stack) ∧
      ∀ rest : List Token, rest.head? ≠ some .openParen →
        SourceGrammar.resume none (f :: stack) (ts ++ rest) =
          SourceGrammar.resume (some u) opened rest := by
  obtain ⟨u, opened, hresume, hcollapse, -⟩ := h (f :: stack) (below_of_bracket hf level stack)
  refine ⟨u, opened, ?_, hresume⟩
  rw [hcollapse 0 (Nat.zero_le level), collapse, hf]

theorem Reads.opened {level operand : Nat} {t result : Tree} {ts tokens : List Token} {f : Frame}
    (h : Reads operand t ts) (hf : f.close? t = some (level, result)) (hle : level ≤ operand)
    (hbelow : ∀ stack, Below operand (f :: stack)) (hlevel : level < Precedence.dot.level)
    (hbegin : ∀ stack, Below level stack → ∀ rest,
      SourceGrammar.resume none stack (tokens ++ (ts ++ rest)) =
        SourceGrammar.resume none (f :: stack) (ts ++ rest)) :
    Reads level result (tokens ++ ts) := by
  intro stack hstack
  obtain ⟨u, opened, hresume, hcollapse, -⟩ := h (f :: stack) (hbelow stack)
  refine ⟨u, opened, ?_, ?_, fun hdot => absurd hdot (Nat.not_le_of_lt hlevel)⟩
  · intro rest hrest
    rw [List.append_assoc, hbegin stack hstack, hresume rest hrest]
  · intro k hk
    rw [hcollapse k (Nat.le_trans hk hle), collapse_of_le hf hk]

theorem Reads.weaken {k level : Nat} {t : Tree} {ts : List Token} (h : Reads level t ts)
    (hle : k ≤ level) : Reads k t ts := by
  intro stack hstack
  obtain ⟨u, opened, hresume, hcollapse, hlone⟩ := h stack (hstack.mono hle)
  exact ⟨u, opened, hresume, fun j hj => hcollapse j (Nat.le_trans hj hle),
    fun hdot => hlone (Nat.le_trans hdot hle)⟩

theorem Reads.group {level : Nat} {t : Tree} {ts : List Token} (h : Reads level t ts) :
    Reads Precedence.atom.level t (.openParen :: (ts ++ [.closeParen])) := by
  refine reads_of_resume fun stack _ rest _ => ?_
  obtain ⟨u, opened, hclose, hresume⟩ := h.bracketed (f := .grouped) (fun _ => rfl) stack
  rw [List.cons_append, List.append_assoc]
  refine (hresume _ (by simp)).trans ?_
  exact resume_closeParen hclose rest

theorem Reads.call {receiver : Tree} {args : List Tree} {ts us : List Token}
    (h : Reads Precedence.dot.level receiver ts) (hargs : ReadsArguments args us)
    (method : String) :
    Reads Precedence.dot.level (.call receiver method args)
      (ts ++ .dot :: .word method :: .openParen :: (us ++ [.closeParen])) := by
  refine reads_of_resume fun stack hstack rest _ => ?_
  have hcalled := hargs receiver method [] stack rest (fun _ => rfl)
  rw [List.append_assoc, h.resume hstack (by simp)]
  simp only [List.cons_append, List.append_assoc, List.nil_append] at hcalled ⊢
  exact hcalled

theorem Reads.index {level : Nat} {array i : Tree} {ts us : List Token}
    (h : Reads Precedence.dot.level array ts) (hi : Reads level i us) :
    Reads Precedence.dot.level (.index array i)
      (ts ++ .openBracket :: (us ++ [.closeBracket])) := by
  refine reads_of_resume fun stack hstack rest _ => ?_
  obtain ⟨u, opened, hclose, hresume⟩ := hi.bracketed (f := .indexed array) (fun _ => rfl) stack
  rw [List.append_assoc, h.resume hstack (by simp), List.cons_append, List.append_assoc]
  refine (hresume _ (by simp)).trans ?_
  exact resume_closeBracket hclose rest

theorem Reads.length {array : Tree} {ts : List Token} (h : Reads Precedence.dot.level array ts) :
    Reads Precedence.dot.level (.length array) (ts ++ [.dot, .word "length"]) := by
  refine reads_of_resume fun stack hstack rest hrest => ?_
  rw [List.append_assoc, h.resume hstack (by simp)]
  exact resume_length array stack hrest

theorem Reads.unary {t : Tree} {ts : List Token} (h : Reads Precedence.unary.level t ts)
    (op : UnaryOp) : Reads Precedence.unary.level (.unary op t) (prefixToken op :: ts) := by
  have hbelow (stack : List Frame) : Below Precedence.unary.level (.prefixed op :: stack) :=
    fun k hk hlt => absurd (Nat.le_trans (Nat.le_max_right _ _) hk) (Nat.not_le_of_lt hlt)
  rw [← List.singleton_append]
  exact h.opened rfl (Nat.le_refl _) hbelow (by decide)
    fun stack _ rest => resume_prefixToken op stack (ts ++ rest)

/-- What is left of an operator is closed by it, and what is right of it waits for more. -/
theorem Reads.binary {op : BinaryOp} {t u : Tree} {ts us : List Token}
    (hleft : Reads op.precedence.level t ts) (hright : Reads (op.precedence.level + 1) u us) :
    Reads op.precedence.level (.binary op t u) (ts ++ .operator op :: us) := by
  obtain ⟨htarget, hunary⟩ := level_lt op
  have hwaits : op.precedence.level < max targetLevel (op.precedence.level + 1) :=
    Nat.lt_of_lt_of_le (Nat.lt_succ_self _) (Nat.le_max_right _ _)
  have hbelow (stack : List Frame) : Below (op.precedence.level + 1) (.infixed op t :: stack) :=
    below_of_lt (fun u => ⟨.binary op t u, rfl⟩) hwaits stack
  rw [List.append_cons]
  refine hright.opened rfl (Nat.le_succ _) hbelow (Nat.lt_trans hunary (by decide)) ?_
  intro stack hstack rest
  obtain ⟨v, opened, hresume, hcollapse, -⟩ := hleft stack hstack
  -- The operator closes what its left side has opened, and nothing of the stack below.
  have hclosed : collapse op.precedence.level v opened = (t, stack) := by
    rw [hcollapse _ (Nat.le_refl _)]
    exact hstack _ (max_le (Nat.le_of_lt htarget) (Nat.le_refl _)) hunary t
  rw [List.append_assoc, hresume _ (by simp)]
  exact resume_operator hclosed (us ++ rest)

/-- An assignment waits for further ones to its right. -/
theorem Reads.store {array i value : Tree} {ts us : List Token}
    (hleft : Reads Precedence.dot.level (.index array i) ts)
    (hright : Reads Precedence.assignment.level value us) :
    Reads Precedence.assignment.level (.store array i value) (ts ++ .equals :: us) := by
  have hbelow (stack : List Frame) :
      Below Precedence.assignment.level (.assigned array i :: stack) :=
    below_of_lt (fun u => ⟨.store array i u, rfl⟩) (by decide) stack
  rw [List.append_cons]
  refine hright.opened rfl (Nat.le_refl _) hbelow (by decide) ?_
  intro stack hstack rest
  have htarget : collapse targetLevel (.index array i) stack = (.index array i, stack) :=
    hstack targetLevel (by decide) (by decide) (.index array i)
  rw [List.append_assoc, hleft.resume (hstack.mono (by decide)) (by simp)]
  exact resume_equals htarget (us ++ rest)

theorem readsArguments_nil : ReadsArguments [] [] := by
  intro receiver method done stack rest hdone
  rw [hdone rfl]
  rfl

theorem Reads.lastArgument {level : Nat} {t : Tree} {ts : List Token} (h : Reads level t ts) :
    ReadsArguments [t] ts := by
  intro receiver method done stack rest _
  obtain ⟨u, opened, hclose, hresume⟩ :=
    h.bracketed (f := .called receiver method done) (fun _ => rfl) stack
  rw [hresume _ (by simp)]
  exact resume_lastArgument hclose rest

theorem Reads.moreArguments {level : Nat} {t u : Tree} {args : List Tree} {ts us : List Token}
    (h : Reads level t ts) (hargs : ReadsArguments (u :: args) us) :
    ReadsArguments (t :: u :: args) (ts ++ .comma :: us) := by
  intro receiver method done stack rest _
  obtain ⟨v, opened, hclose, hresume⟩ :=
    h.bracketed (f := .called receiver method done) (fun _ => rfl) stack
  rw [List.append_assoc, hresume _ (by simp), List.cons_append, resume_comma hclose,
    hargs receiver method (done ++ [t]) stack rest (by simp), List.append_assoc]
  rfl

theorem reads_of_derives {phrase : Phrase} {ts : List Token} (h : Derives phrase ts) :
    ReadsPhrase phrase ts := by
  induction h with
  | name x => exact reads_of_resume fun _ _ _ _ => rfl
  | number n => exact reads_of_resume fun _ _ _ _ => rfl
  | group _ ih => exact Reads.group ih
  | call method _ _ ihfirst ihrest => exact Reads.call ihfirst ihrest method
  | index _ _ ihfirst ihinner => exact Reads.index ihfirst ihinner
  | length _ ih => exact Reads.length ih
  | unary op _ ih => exact Reads.unary ih op
  | binary op _ _ ihleft ihright => exact Reads.binary ihleft ihright
  | store _ _ ihleft ihright => exact Reads.store ihleft ihright
  | weaken hle _ ih => exact Reads.weaken ih hle
  | noArguments => exact readsArguments_nil
  | lastArgument _ ih => exact Reads.lastArgument ih
  | moreArguments _ _ ihfirst ihrest => exact Reads.moreArguments ihfirst ihrest

/-- A derivation is read back. -/
theorem read_of_derives {t : Tree} {ts : List Token}
    (h : Derives (.term Precedence.assignment.level t) ts) : read ts = some t := by
  obtain ⟨u, opened, hresume, hcollapse, -⟩ := reads_of_derives h [] (below_nil _)
  have hclose : collapse 0 u opened = (t, []) := hcollapse 0 (Nat.zero_le _)
  rw [read, ← List.append_nil ts, hresume [] (by simp), resume, hclose]

/-- No tokens have two derivations with different trees. -/
theorem derives_unique {t u : Tree} {ts : List Token}
    (ht : Derives (.term Precedence.assignment.level t) ts)
    (hu : Derives (.term Precedence.assignment.level u) ts) : t = u :=
  Option.some.inj ((read_of_derives ht).symm.trans (read_of_derives hu))

end FragmentSynthesis.Proofs.SourceGrammar
