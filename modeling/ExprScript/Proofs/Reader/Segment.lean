import ExprScript.Proofs.Grammar.Program
import ExprScript.Proofs.Reader.Routine
import ExprScript.Proofs.Tree.Node

/-!
# The segments of nodes

The tokens that are taken for a node are its segment: they lie between two streams, one later than
the other.  The position of a node is that of the first token of its segment.  That token is one of
the node itself, or else the segment starts with that of the first part.  The segments of the parts
follow each other inside that of the node.
-/

namespace ExprScript

/-- Where a node starts. -/
def Node.pos : Node → Option Pos
  | .expr e => e.pos
  | .stmt s => s.pos

/-- The kind of token that a node starts with, if it starts with a token of its own. -/
def Node.Opens : Node → Kind → Prop
  | .stmt (.bind ..), k => k = .letWord
  | .stmt (.ret ..), k => k = .returnWord
  | .stmt (.block ..), k => k = .lbrace
  | .expr (.ident ..), k => k = .ident
  | .expr (.int ..), k => k = .int
  | .expr (.bool _ true), k => k = .trueWord
  | .expr (.bool _ false), k => k = .falseWord
  | .expr (.str ..), k => k = .string
  | .expr (.array ..), k => k = .lbracket
  | .expr (.map ..), k => k = .lbrace
  | .expr (.unary _ op _), k => k.unary? = some op
  | .expr (.group ..), k => k = .lparen
  | .expr (.cond ..), k => k = .ifWord
  | .expr (.fn ..), k => k = .fnWord
  | _, _ => False

/-- A node starts with its first part, which other parts may follow. -/
inductive Node.Led : Node → Node → List Node → Prop
  | binary {pos left op right} : Led (.expr (.binary pos left op right)) (.expr left) [.expr right]
  | index {pos collection position} :
      Led (.expr (.index pos collection position)) (.expr collection) [.expr position]
  | call {pos callee args} :
      Led (.expr (.call pos callee args)) (.expr callee) (args.map .expr)
  | expr {pos e} : Led (.stmt (.expr pos e)) (.expr e) []

theorem Node.Led.parts {n first : Node} {rest : List Node} (h : n.Led first rest) :
  n.parts = first :: rest
  := by
  cases h <;> rfl

namespace Reader

open Stateful Grammar

/-! ### Segments -/

/-- The tokens from one stream to another are taken for a node.  A block in braces is a statement
with or without the semicolon behind it, which is not taken for the block. -/
inductive Taken : Node → TokenStream → TokenStream → Prop
  | statement {limit a s s'} : s.head.kind ≠ .lbrace → (statement limit).run s = .ok a s' →
      Taken (.stmt a) s s'
  | block {limit a s s'} : (block limit).run s = .ok a s' → Taken (.stmt a) s s'
  | operand {limit e s s'} : (operand limit).run s = .ok e s' → Taken (.expr e) s s'
  | conditional {limit e s s'} : (conditional limit).run s = .ok e s' → Taken (.expr e) s s'
  /-- An expression is taken with what is taken for the expression that it goes on with. -/
  | link {limit left link e s s₁ s'} : Taken (.expr left) s s₁ → s₁.head.kind.link? = some link →
      (extend (expression limit) left link).run s₁ = .ok e s' → Taken (.expr e) s s'
  /-- Behind `else` a conditional is a statement of its own. -/
  | elseIf {limit e s s'} : (conditional limit).run s = .ok e s' →
      Taken (.stmt (.expr (some s.head.pos) e)) s s'

/-- One after the other, the nodes have disjoint segments between two streams. -/
inductive Laid (R : Node → TokenStream → TokenStream → Prop) :
    List Node → TokenStream → TokenStream → Prop
  | nil {s s'} : s.Later s' → Laid R [] s s'
  | cons {n ns s s₁ s₂ s'} : s.Later s₁ → R n s₁ s₂ → Laid R ns s₂ s' → Laid R (n :: ns) s s'

/-- The node has its segment between two streams, where its position is that of the first token,
and its parts have theirs inside. -/
inductive Segment : Node → TokenStream → TokenStream → Prop
  /-- The first token is one of the node. -/
  | opened {n s s'} : Taken n s s' → Takes s s' → n.pos = some s.head.pos →
      n.Opens s.head.kind → Laid Segment n.parts s.tail s' → Segment n s s'
  /-- The first token is that of the first part. -/
  | led {n first rest s s₁ s'} : Taken n s s' → Takes s s' → n.pos = some s.head.pos →
      n.Led first rest → Segment first s s₁ → Laid Segment rest s₁ s' → Segment n s s'

variable {α : Type} {limit : Nat} {s s₁ s' : TokenStream} {n : Node} {ns ns' : List Node}

namespace Segment

theorem takes (h : Segment n s s') :
  Takes s s'
  := by
  cases h with
  | opened _ htakes | led _ htakes => exact htakes

theorem pos (h : Segment n s s') :
  n.pos = some s.head.pos
  := by
  cases h with
  | opened _ _ hpos | led _ _ hpos => exact hpos

end Segment

/-! ### One segment after the other -/

namespace Laid

variable {R : Node → TokenStream → TokenStream → Prop}

theorem single (h : R n s s') :
  Laid R [n] s s'
  := .cons (.refl s) h (.nil (.refl s'))

theorem earlier (h : Laid R ns s₁ s') (hs : s.Later s₁) :
  Laid R ns s s'
  := by
  cases h with
  | nil hlater => exact .nil (hs.trans hlater)
  | cons hlater hn hrest => exact .cons (hs.trans hlater) hn hrest

theorem append (h : Laid R ns s s₁) (h' : Laid R ns' s₁ s') :
  Laid R (ns ++ ns') s s'
  := by
  induction h with
  | nil hlater => apply h'.earlier hlater
  | cons hlater hn _ ih => exact .cons hlater hn (ih h')

theorem later (h : Laid R ns s s₁) (hs : s₁.Later s') :
  Laid R ns s s'
  := by
  rw [← List.append_nil ns]
  apply h.append (.nil hs)

end Laid

/-- A loop over items lays out their nodes if every item does. -/
theorem laid_upTo {R : Node → TokenStream → TokenStream → Prop} {close : Kind} {item : Reader α}
    {node : α → Node} (hadvances : Advances item)
    (hitem : ∀ {s a s'}, s.Ended → item.run s = .ok a s' → Laid R [node a] s s') (hs : s.Ended)
    {items : List α} (h : (upTo close item).run s = .ok items s') :
  Laid R (items.map node) s s'
  := by
  have hin : ∀ bound items s, s.Ended → (upToIn close item bound).run s = .ok items s' →
      Laid R (items.map node) s s' := by
    intro bound
    induction bound with
    | nil =>
        intro _ _ _ h
        cases h
    | cons _ bound ih =>
        intro items s hs h
        rw [upToIn] at h
        by_cases hclose : s.head.kind = close
        · rw [run_if_nextIs_of_eq hclose] at h
          cases h
          exact .nil (.refl _)
        · rw [run_if_nextIs_of_ne hclose] at h
          by_cases heof : s.head.kind = .eof
          · rw [run_if_nextIs_of_eq heof] at h
            cases h
          · rw [run_if_nextIs_of_ne heof] at h
            obtain ⟨a, s₁, ha, h⟩ := run_bind_eq_ok.mp h
            obtain ⟨rest, s₂, hrest, h⟩ := run_bind_eq_ok.mp h
            cases h
            apply (hitem hs ha).append
            apply ih _ _ ((hadvances.later hs ha).ended hs) hrest
  rw [upTo, run_get_bind] at h
  apply hin _ _ _ hs h

/-- A list lays out the nodes of its items if every item does. -/
theorem laid_list {R : Node → TokenStream → TokenStream → Prop} {close : Kind}
    {item : List α → Reader α} {node : α → Node} (hadvances : ∀ done, Advances (item done))
    (hitem : ∀ {done s a s'}, s.Ended → (item done).run s = .ok a s' → Laid R [node a] s s')
    (hs : s.Ended) {items : List α} (h : (list close item).run s = .ok items s') :
  Laid R (items.map node) s s'
  := by
  have hin : ∀ bound done items s s', s.Ended →
      (listIn close item bound done).run s = .ok items s' →
      ∃ rest, items = done.reverse ++ rest ∧ Laid R (rest.map node) s s' := by
    intro bound
    induction bound with
    | nil =>
        intro _ _ _ _ _ h
        cases h
    | cons _ bound ih =>
        intro done items s s' hs h
        rw [listIn] at h
        by_cases hclose : s.head.kind = close
        · rw [run_if_nextIs_of_eq hclose] at h
          cases h
          exact ⟨[], (List.append_nil _).symm, .nil (.refl s)⟩
        · rw [run_if_nextIs_of_ne hclose] at h
          obtain ⟨a, s₁, ha, h⟩ := run_bind_eq_ok.mp h
          have hlaid := hitem hs ha
          have hs₁ := (hadvances done).later hs ha
          by_cases hcomma : s₁.head.kind = .comma
          · rw [run_if_nextIs_of_eq hcomma, run_bind_of_ok (run_take s₁)] at h
            have htail := hs₁.trans (.tail s₁)
            obtain ⟨rest, rfl, hrest⟩ := ih _ _ _ _ (htail.ended hs) h
            refine ⟨a :: rest, by simp, ?_⟩
            exact hlaid.append (hrest.earlier (.tail s₁))
          · rw [run_if_nextIs_of_ne hcomma] at h
            by_cases hclose' : s₁.head.kind = close
            · rw [run_if_nextIs_of_eq hclose'] at h
              cases h
              exact ⟨[a], List.reverse_cons, hlaid⟩
            · rw [run_if_nextIs_of_ne hclose'] at h
              cases h
  rw [list, run_get_bind] at h
  obtain ⟨items', s₁, hitems, h⟩ := run_bind_eq_ok.mp h
  obtain ⟨_, h⟩ := run_require_bind_eq_ok.mp h
  cases h
  obtain ⟨rest, rfl, hrest⟩ := hin _ _ _ _ _ hs hitems
  exact hrest.later (.tail s₁)

/-! ### What is taken for a node -/

theorem Taken.takes (hs : s.Ended) (h : Taken n s s') :
  Takes s s'
  := by
  induction h with
  | statement _ h => apply Routine.takes (r := .statement) hs h
  | block h => apply Routine.takes (r := .block) hs h
  | operand h => apply Routine.takes (r := .operand) hs h
  | conditional h | elseIf h => apply Routine.takes (r := .conditional) hs h
  | @link limit left link e s s₁ s' _ hl hx ih =>
      have hround : LinkRound (expression limit) 0 (left, s₁) (e, s') :=
        .intro hl (Nat.not_lt_zero _) hx
      apply (ih hs).trans_later (hround.takes ((ih hs).ended hs)).later

/-- Going on with an expression along links, more is taken for a wider expression. -/
theorem taken_of_links {power : Nat} {left e : Expr} (hleft : Taken (.expr left) s s₁)
    (h : (links (expression limit) power left).run s₁ = .ok e s') :
  Taken (.expr e) s s'
  := by
  have hin : ∀ bound left s₁, Taken (.expr left) s s₁ →
      (linksIn (expression limit) power bound left).run s₁ = .ok e s' → Taken (.expr e) s s' := by
    intro bound
    induction bound with
    | nil =>
        intro _ _ _ h
        cases h
    | cons _ bound ih =>
        intro left s₁ hleft h
        rw [linksIn, run_bind_of_ok (run_next s₁)] at h
        split at h
        · cases h
          apply hleft
        · rename_i hl
          split at h
          · cases h
            apply hleft
          · obtain ⟨wider, s₂, hx, h⟩ := run_bind_eq_ok.mp h
            apply ih _ _ (.link hleft hl hx) h
  rw [links, run_get_bind] at h
  apply hin _ _ _ hleft h

theorem taken_of_expression {power : Nat} {e : Expr}
    (h : (expression limit power).run s = .ok e s') :
  Taken (.expr e) s s'
  := by
  cases limit with
  | zero => cases h
  | succ limit =>
      rw [expression] at h
      obtain ⟨left, s₁, hleft, h⟩ := run_bind_eq_ok.mp h
      apply taken_of_links (.operand hleft) h

theorem laid_of_expression {power : Nat} {e : Expr}
    (h : (expression limit power).run s = .ok e s') :
  Laid Taken [.expr e] s s'
  := .single (taken_of_expression h)

/-- With a block in braces a semicolon may be taken that is not taken for the block. -/
theorem laid_of_statement {a : Stmt} (h : (statement limit).run s = .ok a s') :
  Laid Taken [.stmt a] s s'
  := by
  by_cases hk : s.head.kind = .lbrace
  · cases limit with
    | zero => cases h
    | succ limit =>
        rw [statement, run_bind_of_ok (run_next s), hk] at h
        obtain ⟨body, s₁, hbody, h⟩ := run_bind_eq_ok.mp h
        rw [run_bind_of_ok (run_skip .semicolon s₁)] at h
        cases h
        apply (Laid.single (.block hbody)).later
        split
        · apply TokenStream.Later.tail
        · apply TokenStream.Later.refl
  · exact .single (.statement hk h)

/-! ### The parts of a node -/

/-- A node starts with a token of its own in front of all its parts, or with its first part.  It has
its position from there. -/
inductive Parted (n : Node) (s s' : TokenStream) : Prop
  | opened : n.pos = some s.head.pos → n.Opens s.head.kind → Laid Taken n.parts s.tail s' →
      Parted n s s'
  | led {first rest s₁} : n.Led first rest →
      (first.pos = some s.head.pos → n.pos = some s.head.pos) → Taken first s s₁ →
      Laid Taken rest s₁ s' → Parted n s s'

theorem parted_statement {a : Stmt} (hk : s.head.kind ≠ .lbrace)
    (h : (statement limit).run s = .ok a s') :
  Parted (.stmt a) s s'
  := by
  cases limit with
  | zero => cases h
  | succ limit =>
      rw [statement, run_bind_of_ok (run_next s)] at h
      split at h
      case h_1 hlet =>
        rw [run_bind_of_ok (run_take s)] at h
        obtain ⟨-, h⟩ := run_require_bind_eq_ok.mp h
        obtain ⟨-, h⟩ := run_require_bind_eq_ok.mp h
        obtain ⟨value, s₁, hvalue, h⟩ := run_bind_eq_ok.mp h
        obtain ⟨-, h⟩ := run_require_bind_eq_ok.mp h
        cases h
        refine .opened rfl hlet ?_
        apply Laid.later _ (.tail s₁)
        apply (laid_of_expression hvalue).earlier
        exact (TokenStream.Later.tail _).trans (.tail _)
      case h_2 hreturn =>
        rw [run_bind_of_ok (run_take s)] at h
        obtain ⟨value, s₁, hvalue, h⟩ := run_bind_eq_ok.mp h
        obtain ⟨-, h⟩ := run_require_bind_eq_ok.mp h
        cases h
        refine .opened rfl hreturn ?_
        apply (laid_of_expression hvalue).later (.tail s₁)
      case h_3 hbrace => apply absurd hbrace hk
      case h_4 =>
        obtain ⟨value, s₁, hvalue, h⟩ := run_bind_eq_ok.mp h
        rw [run_bind_of_ok (run_skip .semicolon s₁)] at h
        cases h
        refine .led .expr (fun _ => rfl) (taken_of_expression hvalue) ?_
        apply Laid.nil
        split
        · apply TokenStream.Later.tail
        · apply TokenStream.Later.refl

theorem parted_block {a : Stmt} (hs : s.Ended) (h : (block limit).run s = .ok a s') :
  Parted (.stmt a) s s'
  := by
  cases limit with
  | zero => cases h
  | succ limit =>
      rw [block] at h
      obtain ⟨hk, h⟩ := run_require_bind_eq_ok.mp h
      obtain ⟨body, s₁, hbody, h⟩ := run_bind_eq_ok.mp h
      obtain ⟨-, h⟩ := run_require_bind_eq_ok.mp h
      cases h
      refine .opened rfl hk ?_
      apply Laid.later _ (.tail s₁)
      apply laid_upTo (advancesAt limit).statement _ ((TokenStream.Later.tail s).ended hs) hbody
      exact fun _ ha => laid_of_statement ha

theorem parted_conditional {e : Expr} (hs : s.Ended) (h : (conditional limit).run s = .ok e s') :
  Parted (.expr e) s s'
  := by
  cases limit with
  | zero => cases h
  | succ limit =>
      have hadvances := advancesAt limit
      have htail : s.tail.Ended := (TokenStream.Later.tail s).ended hs
      rw [conditional] at h
      obtain ⟨hk, h⟩ := run_require_bind_eq_ok.mp h
      obtain ⟨condition, s₁, hcondition, h⟩ := run_bind_eq_ok.mp h
      obtain ⟨yes, s₂, hyes, h⟩ := run_bind_eq_ok.mp h
      have hboth : Laid Taken [.expr condition, .stmt yes] s.tail s₂ :=
        (laid_of_expression hcondition).append (.single (.block hyes))
      by_cases helse : s₂.head.kind = .elseWord
      · rw [run_if_nextIs_of_eq helse, run_bind_of_ok (run_take s₂),
          run_bind_of_ok (run_next s₂.tail)] at h
        split at h
        · obtain ⟨nested, s₃, hnested, h⟩ := run_bind_eq_ok.mp h
          cases h
          refine .opened rfl hk ?_
          apply hboth.append
          apply (Laid.single (.elseIf hnested)).earlier (.tail s₂)
        · obtain ⟨no, s₃, hno, h⟩ := run_bind_eq_ok.mp h
          cases h
          refine .opened rfl hk ?_
          apply hboth.append
          apply (Laid.single (.block hno)).earlier (.tail s₂)
      · rw [run_if_nextIs_of_ne helse] at h
        cases h
        exact .opened rfl hk hboth

/-- An entry of a map has its value behind the key and the colon. -/
theorem laid_of_entry {seen : List (String × Expr)} {p : String × Expr}
    (h : (entry (expression limit) seen).run s = .ok p s') :
  Laid Taken [.expr p.2] s s'
  := by
  obtain ⟨-, -, -, -, hvalue⟩ := run_entry_eq_ok h
  apply (laid_of_expression hvalue).earlier
  exact (TokenStream.Later.tail _).trans (.tail _)

theorem parted_link {left e : Expr} {link : Link} (hs : s.Ended) (hleft : Taken (.expr left) s s₁)
    (h : (extend (expression limit) left link).run s₁ = .ok e s') :
  Parted (.expr e) s s'
  := by
  have hs₁ : s₁.Ended := (hleft.takes hs).ended hs
  cases link with
  | index =>
      rw [extend, run_bind_of_ok (run_take s₁)] at h
      obtain ⟨position, s₂, hposition, h⟩ := run_bind_eq_ok.mp h
      obtain ⟨-, h⟩ := run_require_bind_eq_ok.mp h
      cases h
      refine .led .index (fun hpos => hpos) hleft ?_
      apply Laid.later _ (.tail s₂)
      apply (laid_of_expression hposition).earlier (.tail s₁)
  | call =>
      rw [extend, run_bind_of_ok (run_take s₁)] at h
      obtain ⟨args, s₂, hargs, h⟩ := run_bind_eq_ok.mp h
      cases h
      refine .led .call (fun hpos => hpos) hleft ?_
      apply Laid.earlier _ (.tail s₁)
      apply laid_list (fun _ => (advancesAt limit).expression 0) _
        ((TokenStream.Later.tail s₁).ended hs₁) hargs
      exact fun _ ha => laid_of_expression ha
  | binary op l r =>
      rw [extend, run_bind_of_ok (run_take s₁)] at h
      obtain ⟨-, h⟩ := run_operandAhead_bind_eq_ok.mp h
      obtain ⟨right, s₂, hright, h⟩ := run_bind_eq_ok.mp h
      cases h
      refine .led .binary (fun hpos => hpos) hleft ?_
      apply (laid_of_expression hright).earlier (.tail s₁)

theorem parted_operand {e : Expr} (hs : s.Ended) (h : (operand limit).run s = .ok e s') :
  Parted (.expr e) s s'
  := by
  cases limit with
  | zero => cases h
  | succ limit =>
      have hadvances := advancesAt limit
      have htail : s.tail.Ended := (TokenStream.Later.tail s).ended hs
      rw [operand, run_bind_of_ok (run_next s)] at h
      split at h
      case h_1 hk =>
        rw [run_bind_of_ok (run_take s)] at h
        obtain ⟨n, s₁, hn, h⟩ := run_bind_eq_ok.mp h
        obtain ⟨-, -, -, rfl⟩ := run_number_eq_ok.mp hn
        cases h
        exact .opened rfl hk (.nil (.refl _))
      case h_2 hk | h_3 hk | h_4 hk | h_5 hk =>
        rw [run_bind_of_ok (run_take s)] at h
        cases h
        exact .opened rfl hk (.nil (.refl _))
      case h_6 hk =>
        rw [run_bind_of_ok (run_afterNext s)] at h
        split at h
        · cases h
        · rw [run_bind_of_ok (run_take s)] at h
          obtain ⟨inner, s₁, hinner, h⟩ := run_bind_eq_ok.mp h
          obtain ⟨-, h⟩ := run_require_bind_eq_ok.mp h
          cases h
          exact .opened rfl hk ((laid_of_expression hinner).later (.tail s₁))
      case h_7 hk => apply parted_conditional hs h
      case h_8 hk =>
        rw [run_bind_of_ok (run_take s)] at h
        obtain ⟨-, h⟩ := run_require_bind_eq_ok.mp h
        obtain ⟨parameters, s₁, hparameters, h⟩ := run_bind_eq_ok.mp h
        obtain ⟨body, s₂, hbody, h⟩ := run_bind_eq_ok.mp h
        cases h
        refine .opened rfl hk ?_
        apply (Laid.single (.block hbody)).earlier
        apply (TokenStream.Later.tail _).trans
        apply (advances_list fun _ => advances_parameter).later _ hparameters
        apply (TokenStream.Later.tail _).ended htail
      case h_9 hk =>
        rw [run_bind_of_ok (run_take s)] at h
        obtain ⟨elements, s₁, helements, h⟩ := run_bind_eq_ok.mp h
        cases h
        refine .opened rfl hk ?_
        apply laid_list (fun _ => hadvances.expression 0) _ htail helements
        exact fun _ ha => laid_of_expression ha
      case h_10 hk =>
        rw [run_bind_of_ok (run_take s)] at h
        obtain ⟨entries, s₁, hentries, h⟩ := run_bind_eq_ok.mp h
        cases h
        refine .opened rfl hk ?_
        have hlaid : Laid Taken (entries.map fun p => .expr p.2) s.tail s' := by
          apply laid_list (advances_entry hadvances.expression) _ htail hentries
          exact fun _ ha => laid_of_entry ha
        simpa [Node.parts, Node.children, Function.comp_def] using hlaid
      case h_11 =>
        split at h
        · rename_i op hop
          rw [run_bind_of_ok (run_take s)] at h
          obtain ⟨-, h⟩ := run_operandAhead_bind_eq_ok.mp h
          obtain ⟨inner, s₁, hinner, h⟩ := run_bind_eq_ok.mp h
          cases h
          exact .opened rfl hop (laid_of_expression hinner)
        · cases h

/-- Whatever is taken for a node, the parts of the node are in there, one after the other. -/
theorem Taken.parted (hs : s.Ended) (h : Taken n s s') :
  Parted n s s'
  := by
  cases h with
  | statement hk h => apply parted_statement hk h
  | block h => apply parted_block hs h
  | operand h => apply parted_operand hs h
  | conditional h => apply parted_conditional hs h
  | link hleft _ hx => apply parted_link hs hleft hx
  | elseIf h => exact .led .expr (fun _ => rfl) (.conditional h) (.nil (.refl s'))

/-! ### Segments of all nodes -/

/-- Nodes that are taken one after the other have their segments if each of them has. -/
theorem Laid.segments (hs : s.Ended) (h : Laid Taken ns s s')
    (hsegment : ∀ {n s s'}, n ∈ ns → s.Ended → Taken n s s' → Segment n s s') :
  Laid Segment ns s s'
  := by
  induction h with
  | nil hlater => exact .nil hlater
  | cons hlater hn _ ih =>
      have hs₁ := hlater.ended hs
      have hfirst := hsegment List.mem_cons_self hs₁ hn
      apply Laid.cons hlater hfirst
      apply ih (hfirst.takes.ended hs₁)
      exact fun hmem => hsegment (List.mem_cons_of_mem _ hmem)

/-- What is taken for a node is its segment. -/
theorem segment_of_taken (n : Node) {s s' : TokenStream} (hs : s.Ended) (h : Taken n s s') :
  Segment n s s'
  := by
  have htakes := h.takes hs
  have hparts : ∀ {c s s'}, c ∈ n.parts → s.Ended → Taken c s s' → Segment c s s' :=
    fun _ hs hc => segment_of_taken _ hs hc
  cases h.parted hs with
  | opened hpos hopens hlaid =>
      apply Segment.opened h htakes hpos hopens
      apply hlaid.segments _ hparts
      apply (TokenStream.Later.tail s).ended hs
  | led hled hpos hfirst hlaid =>
      rw [hled.parts] at hparts
      have hsegment := hparts List.mem_cons_self hs hfirst
      apply Segment.led h htakes (hpos hsegment.pos) hled hsegment
      apply hlaid.segments (hsegment.takes.ended hs)
      exact fun hmem => hparts (List.mem_cons_of_mem _ hmem)
termination_by sizeOf n
decreasing_by exact Node.sizeOf_lt_of_part ‹_›

theorem Laid.spans (h : Laid Segment ns s s') :
  s.Later s'
  := by
  induction h with
  | nil hlater => exact hlater
  | cons hlater hn _ ih => exact hlater.trans (hn.takes.later.trans ih)

theorem Laid.of_mem (h : Laid Segment ns s s') (hn : n ∈ ns) :
  ∃ s₁ s₂, s.Later s₁ ∧ Segment n s₁ s₂ ∧ s₂.Later s'
  := by
  induction h with
  | nil => cases hn
  | cons hlater hfirst hrest ih =>
      rcases List.mem_cons.mp hn with rfl | hn
      · exact ⟨_, _, hlater, hfirst, hrest.spans⟩
      · obtain ⟨s₁, s₂, hs₁, hsegment, hs₂⟩ := ih hn
        exact ⟨s₁, s₂, hlater.trans (hfirst.takes.later.trans hs₁), hsegment, hs₂⟩

/-- The parts of a node have their segments inside that of the node. -/
theorem Segment.of_part {c : Node} (h : Segment n s s') (hc : c ∈ n.parts) :
  ∃ s₁ s₂, s.Later s₁ ∧ Segment c s₁ s₂ ∧ s₂.Later s'
  := by
  have hlaid : Laid Segment n.parts s s' := by
    cases h with
    | opened _ _ _ _ hlaid => exact hlaid.earlier (.tail s)
    | led _ _ _ hled hfirst hlaid =>
        rw [hled.parts]
        exact .cons (.refl s) hfirst hlaid
  apply hlaid.of_mem hc

theorem Segment.of_within {c : Node} (hc : c.Within n) (h : Segment n s s') :
  ∃ s₁ s₂, s.Later s₁ ∧ Segment c s₁ s₂ ∧ s₂.Later s'
  := by
  induction hc generalizing s s' with
  | refl => exact ⟨s, s', .refl s, h, .refl s'⟩
  | part hpart _ ih =>
      obtain ⟨s₁, s₂, hs₁, hpart, hs₂⟩ := h.of_part hpart
      obtain ⟨s₃, s₄, hs₃, hsegment, hs₄⟩ := ih hpart
      exact ⟨s₃, s₄, hs₁.trans hs₃, hsegment, hs₄.trans hs₂⟩

end Reader

namespace Program

open Reader Stateful Grammar

/-- Every node of a program knows where it starts.  The statements of a program have their segments
one after the other up to the end of input, and every node has its own somewhere in there. -/
theorem segments_of_read {limit : Nat} {source : String} {p : Program}
    (h : read limit source = .ok p) :
  ∃ s', s'.ahead = [] ∧ Laid Segment (p.statements.map .stmt) (.ofSource source) s'
    ∧ ∀ n, p.Has n → ∃ s₁ s₂, (TokenStream.ofSource source).Later s₁ ∧ Segment n s₁ s₂
      ∧ s₂.Later s'
  := by
  have hs := TokenStream.ofSource_ended source
  obtain ⟨s', hrun⟩ := read_eq_ok.mp h
  rw [Reader.program] at hrun
  obtain ⟨ss, s₁, hss, hrun⟩ := run_bind_eq_ok.mp hrun
  cases hrun
  obtain ⟨hk, w, hw, -⟩ := upTo_sound (soundAt limit).statement hs hss
  have hended : s'.Ended := ((advances_upTo (advancesAt limit).statement).later hs hss).ended hs
  have hlaid : Laid Segment (ss.map .stmt) (.ofSource source) s' := by
    have htaken := laid_upTo (advancesAt limit).statement (fun _ ha => laid_of_statement ha) hs hss
    apply htaken.segments hs
    exact fun _ hs hn => segment_of_taken _ hs hn
  refine ⟨s', hended.ahead_eq_nil hk, hlaid, ?_⟩
  rintro n ⟨a, ha, hn⟩
  obtain ⟨s₁, s₂, hs₁, hsegment, hs₂⟩ := hlaid.of_mem (List.mem_map_of_mem ha)
  obtain ⟨s₃, s₄, hs₃, hnode, hs₄⟩ := hsegment.of_within hn
  exact ⟨s₃, s₄, hs₁.trans hs₃, hnode, hs₄.trans hs₂⟩

/-- The call starts where its callee does, and not where the sum around it does. -/
theorem segments_of_read_call :
  read 100 "a + f(1)" = .ok ⟨[.expr (some ⟨1, 1⟩) (.binary (some ⟨1, 1⟩)
      (.ident (some ⟨1, 1⟩) "a") .add
      (.call (some ⟨1, 5⟩) (.ident (some ⟨1, 5⟩) "f") [.int (some ⟨1, 7⟩) 1]))]⟩
    ∧ ∃ s s', (TokenStream.ofSource "a + f(1)").Later s
      ∧ Segment (.expr (.call (some ⟨1, 5⟩) (.ident (some ⟨1, 5⟩) "f") [.int (some ⟨1, 7⟩) 1])) s s'
  := by
  have hread : read 100 "a + f(1)" = .ok ⟨[.expr (some ⟨1, 1⟩) (.binary (some ⟨1, 1⟩)
      (.ident (some ⟨1, 1⟩) "a") .add
      (.call (some ⟨1, 5⟩) (.ident (some ⟨1, 5⟩) "f") [.int (some ⟨1, 7⟩) 1]))]⟩ := by
    with_unfolding_all rfl
  obtain ⟨s', -, -, hnodes⟩ := segments_of_read hread
  obtain ⟨s₁, s₂, hs₁, hsegment, -⟩ := hnodes _ ⟨_, List.mem_cons_self,
    .part (List.mem_cons_self ..) (Node.within_of_part (List.mem_cons_of_mem _ List.mem_cons_self))⟩
  exact ⟨hread, s₁, s₂, hs₁, hsegment⟩

end Program

end ExprScript
