import ExprScript.Proofs.Grammar
import ExprScript.Proofs.Scope
import ExprScript.Proofs.Token.Scan
import ExprScript.Proofs.Tree.Recast
import ExprScript.Tree.Equal

/-!
# Derivations and the forms of tokens

The grammar looks at kinds and literals only: what it derives from some tokens it derives from
all tokens of the same forms, and the trees differ in their positions only.
-/

namespace ExprScript.Grammar

/-- The tree of a symbol with other positions, and with or without its grouping. -/
@[simp]
def Sym.recast (place : Option Pos → Option Pos) (grouped : Bool) : (S : Sym) → S.Tree → S.Tree
  | .program, p => p.recast place grouped
  | .stmts, ss => Stmt.recastAll place grouped ss
  | .stmt _, s => s.recast place grouped
  | .block, s => s.recast place grouped
  | .expr _, e => e.recast place grouped
  | .cond, e => e.recast place grouped
  | .parameter, n => n
  | .entry, p => (p.1, p.2.recast place grouped)
  | .list item, as => as.map (item.recast place grouped)

/-- The tree of a symbol without positions. -/
abbrev Sym.unplaced (S : Sym) : S.Tree → S.Tree := S.recast (fun _ => none) true

/-! ### Lists of tokens with the same forms -/

theorem forms_eq_append {u v w : List Token}
    (h : u.map Token.form = (v ++ w).map Token.form) :
  ∃ v' w', u = v' ++ w' ∧ v'.map Token.form = v.map Token.form
    ∧ w'.map Token.form = w.map Token.form
  := by
  rw [List.map_append, List.map_eq_append_iff] at h
  obtain ⟨v', w', rfl, hv, hw⟩ := h
  exact ⟨v', w', rfl, hv, hw⟩

theorem forms_eq_cons_token {u w : List Token} {t : Token}
    (h : u.map Token.form = (t :: w).map Token.form) :
  ∃ t' w', u = t' :: w' ∧ t'.kind = t.kind ∧ t'.literal = t.literal
    ∧ w'.map Token.form = w.map Token.form
  := by
  rw [List.map_cons, List.map_eq_cons_iff] at h
  obtain ⟨t', w', rfl, ht, hw⟩ := h
  obtain ⟨hk, hl⟩ := Prod.mk.inj ht
  exact ⟨t', w', rfl, hk, hl, hw⟩

theorem forms_eq_singleton {u : List Token} {t : Token}
    (h : u.map Token.form = [t].map Token.form) :
  ∃ t', u = [t'] ∧ t'.kind = t.kind ∧ t'.literal = t.literal
  := by
  obtain ⟨t', w', rfl, hk, hl, hw⟩ := forms_eq_cons_token h
  obtain rfl := List.map_eq_nil_iff.mp hw
  exact ⟨t', rfl, hk, hl⟩

/-- Tokens of the forms of some tokens with another one after them. -/
theorem forms_eq_concat {u w : List Token} {z : Token}
    (h : u.map Token.form = (w ++ [z]).map Token.form) :
  ∃ w' z', u = w' ++ [z'] ∧ w'.map Token.form = w.map Token.form ∧ z'.kind = z.kind
  := by
  obtain ⟨w', v', rfl, hw', hv'⟩ := forms_eq_append h
  obtain ⟨z', rfl, hz', -⟩ := forms_eq_singleton hv'
  exact ⟨w', z', rfl, hw', hz'⟩

/-- Tokens of the forms of some tokens between two others. -/
theorem forms_eq_enclosed {u w : List Token} {t z : Token}
    (h : u.map Token.form = (t :: (w ++ [z])).map Token.form) :
  ∃ t' w' z', u = t' :: (w' ++ [z']) ∧ t'.kind = t.kind ∧ w'.map Token.form = w.map Token.form
    ∧ z'.kind = z.kind
  := by
  obtain ⟨t', u₁, rfl, ht', -, h₁⟩ := forms_eq_cons_token h
  obtain ⟨w', z', rfl, hw', hz'⟩ := forms_eq_concat h₁
  exact ⟨t', w', z', rfl, ht', hw', hz'⟩

/-- Tokens of the forms of some tokens around another one. -/
theorem forms_eq_around {u w v : List Token} {t : Token}
    (h : u.map Token.form = (w ++ t :: v).map Token.form) :
  ∃ w' t' v', u = w' ++ t' :: v' ∧ w'.map Token.form = w.map Token.form ∧ t'.kind = t.kind
    ∧ v'.map Token.form = v.map Token.form
  := by
  obtain ⟨w', u₁, rfl, hw', h₁⟩ := forms_eq_append h
  obtain ⟨t', v', rfl, ht', -, hv'⟩ := forms_eq_cons_token h₁
  exact ⟨w', t', v', rfl, hw', ht', hv'⟩

/-- Whether an expression is ended depends on forms only. -/
theorem halts_congr {v w : List Token} (h : v.map Token.form = w.map Token.form) (hw : Halts w) :
  Halts v
  := by
  cases v with
  | nil =>
      intro t ht
      cases ht
  | cons t v =>
      obtain ⟨t', w', rfl, hk, -⟩ := forms_eq_cons_token h.symm
      intro u hu
      cases hu
      rw [← hk]
      apply hw t' rfl

/-- Recasting keeps the keys of a map. -/
theorem keys_eq_of_recast {place : Option Pos → Option Pos} {grouped : Bool}
    {es fs : List (String × Expr)}
    (h : (Sym.list .entry).recast place grouped es = (Sym.list .entry).recast place grouped fs) :
  es.map Prod.fst = fs.map Prod.fst
  := by
  have hkeys := congrArg (List.map Prod.fst) h
  simp only [Sym.recast, List.map_map] at hkeys
  apply hkeys

/-! ### Derivations -/

/-- What is derived from some tokens is derived from all tokens of the same forms, positions
aside. -/
theorem Derives.of_forms {S : Sym} {w : List Token} {a : S.Tree} (h : Derives S w a)
    {u : List Token} (hu : u.map Token.form = w.map Token.form) :
  ∃ b, Derives S u b ∧ S.unplaced b = S.unplaced a
  := by
  induction h generalizing u with
  | program hw hz ih =>
      obtain ⟨w', z', rfl, hw', hz'⟩ := forms_eq_concat hu
      obtain ⟨ss, hss, he⟩ := ih hw'
      exact ⟨_, .program hss (hz'.trans hz), congrArg Program.mk he⟩
  | noStmts =>
      obtain rfl := List.map_eq_nil_iff.mp hu
      exact ⟨_, .noStmts, rfl⟩
  | moreStmts hs hv hh ihs ihv =>
      obtain ⟨w', v', rfl, hw', hv'⟩ := forms_eq_append hu
      obtain ⟨s', hs', he⟩ := ihs hw'
      obtain ⟨ss', hss', hes⟩ := ihv hv'
      refine ⟨_, .moreStmts hs' hss' fun h => halts_congr hv' (hh h), ?_⟩
      simp only [Sym.recast, Stmt.recastAll] at he hes ⊢
      rw [he, hes]
  | bind ht hn ha he hz ih =>
      obtain ⟨t', u₁, rfl, ht', -, h₁⟩ := forms_eq_cons_token hu
      obtain ⟨n', u₂, rfl, hn', hname, h₂⟩ := forms_eq_cons_token h₁
      obtain ⟨a', w', z', rfl, ha', hw', hz'⟩ := forms_eq_enclosed h₂
      obtain ⟨e', he', heq⟩ := ih hw'
      refine ⟨_, .bind (ht'.trans ht) (hn'.trans hn) (ha'.trans ha) he' (hz'.trans hz), ?_⟩
      simp only [Sym.recast, Stmt.recast] at heq ⊢
      rw [heq, hname]
  | ret ht he hz ih =>
      obtain ⟨t', w', z', rfl, ht', hw', hz'⟩ := forms_eq_enclosed hu
      obtain ⟨e', he', heq⟩ := ih hw'
      refine ⟨_, .ret (ht'.trans ht) he' (hz'.trans hz), ?_⟩
      apply congrArg (Stmt.ret none) heq
  | block hb ih =>
      obtain ⟨b', hb', heq⟩ := ih hu
      exact ⟨b', .block hb', heq⟩
  | blockEnded hb hz ih =>
      obtain ⟨w', z', rfl, hw', hz'⟩ := forms_eq_concat hu
      obtain ⟨b', hb', heq⟩ := ih hw'
      exact ⟨b', .blockEnded hb' (hz'.trans hz), heq⟩
  | expr ht he ih =>
      obtain ⟨e', he', heq⟩ := ih hu
      obtain ⟨t', u₁, rfl, ht', -, -⟩ := forms_eq_cons_token hu
      refine ⟨_, .expr (ht' ▸ ht) he', ?_⟩
      apply congrArg (Stmt.expr none) heq
  | exprEnded ht he hz ih =>
      rw [← List.cons_append] at hu
      obtain ⟨w', z', rfl, hw', hz'⟩ := forms_eq_concat hu
      obtain ⟨e', he', heq⟩ := ih hw'
      obtain ⟨t', u₁, rfl, ht', -, -⟩ := forms_eq_cons_token hw'
      refine ⟨_, .exprEnded (ht' ▸ ht) he' (hz'.trans hz), ?_⟩
      apply congrArg (Stmt.expr none) heq
  | braces ht hw hz ih =>
      obtain ⟨t', w', z', rfl, ht', hw', hz'⟩ := forms_eq_enclosed hu
      obtain ⟨ss', hss', heq⟩ := ih hw'
      refine ⟨_, .braces (ht'.trans ht) hss' (hz'.trans hz), ?_⟩
      apply congrArg (Stmt.block none) heq
  | tighter he ih =>
      obtain ⟨e', he', heq⟩ := ih hu
      exact ⟨e', he'.tighter, heq⟩
  | binary hl ht hr ihl ihr =>
      obtain ⟨w', t', v', rfl, hw', ht', hv'⟩ := forms_eq_around hu
      obtain ⟨l', hl', hel⟩ := ihl hw'
      obtain ⟨r', hr', her⟩ := ihr hv'
      refine ⟨_, .binary hl' (ht' ▸ ht) hr', ?_⟩
      simp only [Sym.recast, Expr.recast] at hel her ⊢
      rw [hel, her]
  | call hf ht ha hz ihf iha =>
      obtain ⟨w', u₁, rfl, hw', h₁⟩ := forms_eq_append hu
      obtain ⟨t', v', z', rfl, ht', hv', hz'⟩ := forms_eq_enclosed h₁
      obtain ⟨f', hf', hef⟩ := ihf hw'
      obtain ⟨args', ha', hea⟩ := iha hv'
      refine ⟨_, .call hf' (ht'.trans ht) ha' (hz'.trans hz), ?_⟩
      simp only [Sym.recast, Expr.recast, Expr.recastAll_eq_map] at hef hea ⊢
      rw [hef, hea]
  | index hc ht hi hz ihc ihi =>
      obtain ⟨w', u₁, rfl, hw', h₁⟩ := forms_eq_append hu
      obtain ⟨t', v', z', rfl, ht', hv', hz'⟩ := forms_eq_enclosed h₁
      obtain ⟨c', hc', hec⟩ := ihc hw'
      obtain ⟨i', hi', hei⟩ := ihi hv'
      refine ⟨_, .index hc' (ht'.trans ht) hi' (hz'.trans hz), ?_⟩
      simp only [Sym.recast, Expr.recast] at hec hei ⊢
      rw [hec, hei]
  | unary ht he ih =>
      obtain ⟨t', u₁, rfl, ht', -, h₁⟩ := forms_eq_cons_token hu
      obtain ⟨e', he', heq⟩ := ih h₁
      refine ⟨_, .unary (ht' ▸ ht) he', ?_⟩
      apply congrArg (Expr.unary none _) heq
  | int ht hd hm =>
      obtain ⟨t', rfl, ht', hlit⟩ := forms_eq_singleton hu
      rw [← hlit] at hd hm ⊢
      exact ⟨_, .int (ht'.trans ht) hd hm, rfl⟩
  | str ht =>
      obtain ⟨t', rfl, ht', hlit⟩ := forms_eq_singleton hu
      rw [← hlit]
      exact ⟨_, .str (ht'.trans ht), rfl⟩
  | trueWord ht =>
      obtain ⟨t', rfl, ht', -⟩ := forms_eq_singleton hu
      exact ⟨_, .trueWord (ht'.trans ht), rfl⟩
  | falseWord ht =>
      obtain ⟨t', rfl, ht', -⟩ := forms_eq_singleton hu
      exact ⟨_, .falseWord (ht'.trans ht), rfl⟩
  | ident ht =>
      obtain ⟨t', rfl, ht', hlit⟩ := forms_eq_singleton hu
      rw [← hlit]
      exact ⟨_, .ident (ht'.trans ht), rfl⟩
  | group ht he hz ih =>
      obtain ⟨t', w', z', rfl, ht', hw', hz'⟩ := forms_eq_enclosed hu
      obtain ⟨e', he', heq⟩ := ih hw'
      refine ⟨_, .group (ht'.trans ht) he' (hz'.trans hz), ?_⟩
      apply congrArg (Expr.group none) heq
  | cond he ih =>
      obtain ⟨e', he', heq⟩ := ih hu
      exact ⟨e', .cond he', heq⟩
  | fn ht hp hw hq hb ihw ihb =>
      obtain ⟨t', u₁, rfl, ht', -, h₁⟩ := forms_eq_cons_token hu
      obtain ⟨p', u₂, rfl, hp', -, h₂⟩ := forms_eq_cons_token h₁
      obtain ⟨w', q', v', rfl, hw', hq', hv'⟩ := forms_eq_around h₂
      obtain ⟨params', hps, hep⟩ := ihw hw'
      obtain ⟨body', hb', heb⟩ := ihb hv'
      refine ⟨_, .fn (ht'.trans ht) (hp'.trans hp) hps (hq'.trans hq) hb', ?_⟩
      simp only [Sym.recast, Expr.recast, List.map_id_fun', id_eq] at hep heb ⊢
      rw [hep, heb]
  | array ht hw hz ih =>
      obtain ⟨t', w', z', rfl, ht', hw', hz'⟩ := forms_eq_enclosed hu
      obtain ⟨es', he', heq⟩ := ih hw'
      refine ⟨_, .array (ht'.trans ht) he' (hz'.trans hz), ?_⟩
      simp only [Sym.recast, Expr.recast, Expr.recastAll_eq_map] at heq ⊢
      rw [heq]
  | map ht hw hn hz ih =>
      obtain ⟨t', w', z', rfl, ht', hw', hz'⟩ := forms_eq_enclosed hu
      obtain ⟨es', he', heq⟩ := ih hw'
      refine ⟨_, .map (ht'.trans ht) he' (keys_eq_of_recast heq ▸ hn) (hz'.trans hz), ?_⟩
      simp only [Sym.recast, Expr.recast, Expr.recastEntries_eq_map] at heq ⊢
      rw [heq]
  | ifThen ht hc hv ihc ihv =>
      obtain ⟨t', u₁, rfl, ht', -, h₁⟩ := forms_eq_cons_token hu
      obtain ⟨w', v', rfl, hw', hv'⟩ := forms_eq_append h₁
      obtain ⟨c', hc', hec⟩ := ihc hw'
      obtain ⟨yes', hy', hey⟩ := ihv hv'
      refine ⟨_, .ifThen (ht'.trans ht) hc' hy', ?_⟩
      simp only [Sym.recast, Expr.recast] at hec hey ⊢
      rw [hec, hey]
  | ifElse ht hc hv hu' hn ihc ihv ihn =>
      obtain ⟨t', u₁, rfl, ht', -, h₁⟩ := forms_eq_cons_token hu
      obtain ⟨w', u₂, rfl, hw', h₂⟩ := forms_eq_append h₁
      obtain ⟨v', e', u₃, rfl, hv', he', h₃⟩ := forms_eq_around h₂
      obtain ⟨c', hc', hec⟩ := ihc hw'
      obtain ⟨yes', hy', hey⟩ := ihv hv'
      obtain ⟨no', hn', hen⟩ := ihn h₃
      refine ⟨_, .ifElse (ht'.trans ht) hc' hy' (he'.trans hu') hn', ?_⟩
      simp only [Sym.recast, Expr.recast, Stmt.recastElse] at hec hey hen ⊢
      rw [hec, hey, hen]
  | ifElseIf ht hc hv hu' hn ihc ihv ihn =>
      obtain ⟨t', u₁, rfl, ht', -, h₁⟩ := forms_eq_cons_token hu
      obtain ⟨w', u₂, rfl, hw', h₂⟩ := forms_eq_append h₁
      obtain ⟨v', e', u₃, rfl, hv', he', h₃⟩ := forms_eq_around h₂
      obtain ⟨c', hc', hec⟩ := ihc hw'
      obtain ⟨yes', hy', hey⟩ := ihv hv'
      obtain ⟨no', hn', hen⟩ := ihn h₃
      obtain ⟨i', u₄, rfl, -⟩ := forms_eq_cons_token h₃
      refine ⟨_, .ifElseIf (ht'.trans ht) hc' hy' (he'.trans hu') hn', ?_⟩
      simp only [Sym.recast, Expr.recast, Stmt.recastElse, Stmt.recast] at hec hey hen ⊢
      rw [hec, hey, hen]
  | noItems =>
      obtain rfl := List.map_eq_nil_iff.mp hu
      exact ⟨_, .noItems, rfl⟩
  | lastItem ha ih =>
      obtain ⟨a', ha', heq⟩ := ih hu
      refine ⟨_, .lastItem ha', ?_⟩
      apply congrArg (· :: []) heq
  | moreItems ha ht hv iha ihv =>
      obtain ⟨w', t', v', rfl, hw', ht', hv'⟩ := forms_eq_around hu
      obtain ⟨a', ha', hea⟩ := iha hw'
      obtain ⟨as', has', heas⟩ := ihv hv'
      refine ⟨_, .moreItems ha' (ht'.trans ht) has', ?_⟩
      simp only [Sym.unplaced, Sym.recast, List.map_cons] at hea heas ⊢
      rw [hea, heas]
  | parameter ht =>
      obtain ⟨t', rfl, ht', hlit⟩ := forms_eq_singleton hu
      rw [← hlit]
      exact ⟨_, .parameter (ht'.trans ht), rfl⟩
  | entry ht hc he ih =>
      obtain ⟨t', u₁, rfl, ht', hlit, h₁⟩ := forms_eq_cons_token hu
      obtain ⟨c', u₂, rfl, hc', -, h₂⟩ := forms_eq_cons_token h₁
      obtain ⟨e', he', heq⟩ := ih h₂
      refine ⟨_, .entry (ht'.trans ht) (hc'.trans hc) he', ?_⟩
      simp only [Sym.recast] at heq ⊢
      rw [heq, hlit]

/-! ### Equal trees -/

attribute [local simp] Expr.same Expr.sameAll Expr.sameEntries Stmt.same Stmt.sameAll Stmt.sameElse

/-- Whether two trees of a symbol are equal, the items of lists one by one. -/
@[simp]
def Sym.Same : (S : Sym) → S.Tree → S.Tree → Prop
  | .program, p, q => p.same q = true
  | .stmts, ss, ts => Stmt.sameAll ss ts = true
  | .stmt _, s, t => s.same t = true
  | .block, s, t => s.same t = true
  | .expr _, e, f => e.same f = true
  | .cond, e, f => e.same f = true
  | .parameter, m, n => m = n
  | .entry, p, q => p.1 = q.1 ∧ p.2.same q.2 = true
  | .list item, as, bs => as.length = bs.length ∧ ∀ p ∈ as.zip bs, item.Same p.1 p.2

theorem sameAll_of_same {n : Nat} {es fs : List Expr} (h : (Sym.list (.expr n)).Same es fs) :
  Expr.sameAll es fs = true
  := by
  induction es generalizing fs with
  | nil =>
      obtain rfl := List.length_eq_zero_iff.mp h.1.symm
      rw [Expr.sameAll]
  | cons e es ih =>
      cases fs with
      | nil => cases h.1
      | cons f fs =>
          have hes : (Sym.list (.expr n)).Same es fs :=
            ⟨Nat.succ.inj h.1, fun p hp => h.2 p (List.mem_cons_of_mem _ hp)⟩
          rw [Expr.sameAll, ih hes, show e.same f = true from h.2 (e, f) List.mem_cons_self]
          rfl

/-- Entries that are equal one by one are equal by key. -/
theorem sameEntries_of_same {es fs gs : List (String × Expr)}
    (h : (Sym.list .entry).Same es fs) (hg : ∀ p ∈ fs, Dict.get? gs p.1 = some p.2) :
  Expr.sameEntries es gs = true
  := by
  induction es generalizing fs with
  | nil => rw [Expr.sameEntries]
  | cons p es ih =>
      cases fs with
      | nil => cases h.1
      | cons q fs =>
          have hes : (Sym.list .entry).Same es fs :=
            ⟨Nat.succ.inj h.1, fun p hp => h.2 p (List.mem_cons_of_mem _ hp)⟩
          obtain ⟨hk, he⟩ : p.1 = q.1 ∧ p.2.same q.2 = true := h.2 (p, q) List.mem_cons_self
          rw [Expr.sameEntries, hk, hg q List.mem_cons_self]
          simp only [he, Bool.true_and]
          apply ih hes
          intro p hp
          apply hg p (List.mem_cons_of_mem _ hp)

/-- A tree that agrees with a derived one, positions aside, is equal to it, with or without the
grouping of the derived tree. -/
theorem Derives.same {S : Sym} {w : List Token} {a : S.Tree} (h : Derives S w a)
    (grouped : Bool) {b : S.Tree} (hb : S.unplaced b = S.unplaced (S.recast id grouped a)) :
  S.Same b (S.recast id grouped a)
  := by
  induction h with
  | program hw hz ih =>
      apply ih
      apply congrArg Program.statements hb
  | noStmts =>
      cases b with
      | nil => simp [Sym.Same, Sym.recast, Stmt.recastAll, Stmt.sameAll]
      | cons => cases hb
  | moreStmts hs hv hh ihs ihv =>
      cases b with
      | nil => cases hb
      | cons s' ss' =>
          simp only [Sym.recast, Stmt.recastAll, List.cons.injEq] at hb
          simp only [Sym.Same, Sym.recast, Stmt.recastAll, Stmt.sameAll, Bool.and_eq_true]
          exact ⟨ihs hb.1, ihv hb.2⟩
  | bind ht hn ha he hz ih =>
      cases b with
      | bind =>
          simp only [Sym.recast, Stmt.recast, Stmt.bind.injEq] at hb
          simp only [Sym.Same, Sym.recast, Stmt.recast, Stmt.same, Bool.and_eq_true,
            decide_eq_true_eq]
          exact ⟨hb.2.1, ih hb.2.2⟩
      | _ => cases hb
  | ret ht he hz ih =>
      cases b with
      | ret =>
          simp only [Sym.recast, Stmt.recast, Stmt.ret.injEq] at hb
          simp only [Sym.Same, Sym.recast, Stmt.recast, Stmt.same]
          apply ih hb.2
      | _ => cases hb
  | block _ ih | blockEnded _ _ ih => apply ih hb
  | tighter _ ih | cond _ ih => apply ih hb
  | expr ht he ih | exprEnded ht he hz ih =>
      cases b with
      | expr =>
          simp only [Sym.recast, Stmt.recast, Stmt.expr.injEq] at hb
          simp only [Sym.Same, Sym.recast, Stmt.recast, Stmt.same]
          apply ih hb.2
      | _ => cases hb
  | braces ht hw hz ih =>
      cases b with
      | block =>
          simp only [Sym.recast, Stmt.recast, Stmt.block.injEq] at hb
          simp only [Sym.Same, Sym.recast, Stmt.recast, Stmt.same]
          apply ih hb.2
      | _ => cases hb
  | binary hl ht hr ihl ihr =>
      cases b with
      | binary =>
          simp only [Sym.recast, Expr.recast, Expr.binary.injEq] at hb
          simp only [Sym.Same, Sym.recast, Expr.recast, Expr.same, Bool.and_eq_true,
            decide_eq_true_eq]
          exact ⟨⟨ihl hb.2.1, hb.2.2.1⟩, ihr hb.2.2.2⟩
      | _ => cases hb
  | call hf ht ha hz ihf iha =>
      cases b with
      | call =>
          simp only [Sym.recast, Expr.recast, Expr.recastAll_eq_map, Expr.call.injEq] at hb
          simp only [Sym.Same, Sym.recast, Expr.recast, Expr.recastAll_eq_map, Expr.same,
            Bool.and_eq_true]
          exact ⟨ihf hb.2.1, sameAll_of_same (iha hb.2.2)⟩
      | _ => cases hb
  | index hc ht hi hz ihc ihi =>
      cases b with
      | index =>
          simp only [Sym.recast, Expr.recast, Expr.index.injEq] at hb
          simp only [Sym.Same, Sym.recast, Expr.recast, Expr.same, Bool.and_eq_true]
          exact ⟨ihc hb.2.1, ihi hb.2.2⟩
      | _ => cases hb
  | unary ht he ih =>
      cases b with
      | unary =>
          simp only [Sym.recast, Expr.recast, Expr.unary.injEq] at hb
          simp only [Sym.Same, Sym.recast, Expr.recast, Expr.same, Bool.and_eq_true,
            decide_eq_true_eq]
          exact ⟨hb.2.1, ih hb.2.2⟩
      | _ => cases hb
  | int | str | trueWord | falseWord | ident =>
      cases b <;> cases hb
      simp [Sym.Same, Sym.recast, Expr.recast, Expr.same]
  | group ht he hz ih =>
      cases grouped with
      | false => apply ih hb
      | true =>
          cases b with
          | group =>
              simp only [Sym.recast, Expr.recast, if_true, Expr.group.injEq] at hb
              simp only [Sym.Same, Sym.recast, Expr.recast, if_true, Expr.same]
              apply ih hb.2
          | _ => cases hb
  | fn ht hp hw hq hb' ihw ihb =>
      cases b with
      | fn =>
          simp only [Sym.recast, Expr.recast, Expr.fn.injEq] at hb
          simp only [Sym.Same, Sym.recast, Expr.recast, Expr.same, Bool.and_eq_true,
            decide_eq_true_eq]
          exact ⟨hb.2.1, ihb hb.2.2⟩
      | _ => cases hb
  | array ht hw hz ih =>
      cases b with
      | array =>
          simp only [Sym.recast, Expr.recast, Expr.recastAll_eq_map, Expr.array.injEq] at hb
          simp only [Sym.Same, Sym.recast, Expr.recast, Expr.recastAll_eq_map, Expr.same]
          apply sameAll_of_same (ih hb.2)
      | _ => cases hb
  | @map _ _ _ es ht hw hn hz ih =>
      cases b with
      | map =>
          simp only [Sym.recast, Expr.recast, Expr.recastEntries_eq_map, Expr.map.injEq] at hb
          have hes := ih hb.2
          have hkeys : (((Sym.list .entry).recast id grouped es).map Prod.fst).Nodup := by
            simpa [Sym.recast, Function.comp_def] using hn
          simp only [Sym.Same, Sym.recast, Expr.recast, Expr.recastEntries_eq_map, Expr.same,
            Bool.and_eq_true, decide_eq_true_eq]
          exact ⟨hes.1, sameEntries_of_same hes fun p hp => Dict.get?_of_mem hkeys hp⟩
      | _ => cases hb
  | ifThen ht hc hv ihc ihv =>
      cases b with
      | cond p c yes no =>
          simp only [Sym.recast, Expr.recast, Expr.cond.injEq] at hb
          cases no with
          | none =>
              simp only [Sym.Same, Sym.recast, Expr.recast, Stmt.recastElse, Expr.same,
                Stmt.sameElse, Bool.and_eq_true]
              exact ⟨⟨ihc hb.2.1, ihv hb.2.2.1⟩, trivial⟩
          | some => cases hb.2.2.2
      | _ => cases hb
  | ifElse ht hc hv hu' hn ihc ihv ihn =>
      cases b with
      | cond p c yes no =>
          simp only [Sym.recast, Expr.recast, Expr.cond.injEq] at hb
          cases no with
          | none => cases hb.2.2.2
          | some =>
              simp only [Sym.Same, Sym.recast, Expr.recast, Stmt.recastElse, Expr.same,
                Stmt.sameElse, Bool.and_eq_true]
              exact ⟨⟨ihc hb.2.1, ihv hb.2.2.1⟩, ihn (Option.some.inj hb.2.2.2)⟩
      | _ => cases hb
  | ifElseIf ht hc hv hu' hn ihc ihv ihn =>
      cases b with
      | cond p c yes no =>
          simp only [Sym.recast, Expr.recast, Expr.cond.injEq] at hb
          cases no with
          | none => cases hb.2.2.2
          | some s =>
              have hs := Option.some.inj hb.2.2.2
              cases s with
              | expr =>
                  simp only [Stmt.recast, Stmt.expr.injEq] at hs
                  simp only [Sym.Same, Sym.recast, Expr.recast, Stmt.recastElse, Stmt.recast,
                    Expr.same, Stmt.sameElse, Stmt.same, Bool.and_eq_true]
                  exact ⟨⟨ihc hb.2.1, ihv hb.2.2.1⟩, ihn hs.2⟩
              | _ => cases hs
      | _ => cases hb
  | noItems =>
      cases b with
      | nil => simp [Sym.Same, Sym.recast]
      | cons => cases hb
  | lastItem ha ih =>
      cases b with
      | nil => cases hb
      | cons a' as' =>
          obtain ⟨ha', has'⟩ := List.cons.inj hb
          obtain rfl := List.map_eq_nil_iff.mp has'
          refine ⟨rfl, ?_⟩
          intro p hp
          obtain rfl := List.mem_singleton.mp hp
          apply ih ha'
  | moreItems ha ht hv iha ihv =>
      cases b with
      | nil => cases hb
      | cons a' as' =>
          obtain ⟨ha', has'⟩ := List.cons.inj hb
          have hitems := ihv has'
          refine ⟨congrArg (· + 1) hitems.1, ?_⟩
          intro p hp
          rcases List.mem_cons.mp hp with rfl | hp
          · apply iha ha'
          · apply hitems.2 p hp
  | parameter ht => apply hb
  | entry ht hc he ih =>
      simp only [Sym.recast, Prod.mk.injEq] at hb
      exact ⟨hb.1, ih hb.2⟩

end ExprScript.Grammar
