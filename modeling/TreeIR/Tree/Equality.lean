import TreeIR.Tree.Basic

/-!
# Equality of trees

The trees are nested in lists, so their equality test is written out: it walks two trees in step
and compares names where they end. `same_iff` says for each type that the test finds exactly
equality, and the instances follow from it.
-/

namespace TreeIR

mutual

def Ty.same : Ty → Ty → Bool
  | .named a, .named b => a == b
  | .generic a as, .generic b bs => a == b && TypeArg.allSame as bs
  | _, _ => false

def TypeArg.allSame : List TypeArg → List TypeArg → Bool
  | [], [] => true
  | ⟨a, s⟩ :: as, ⟨b, t⟩ :: bs => a == b && s.same t && TypeArg.allSame as bs
  | _, _ => false

end

mutual

theorem Ty.same_iff : ∀ s t : Ty, s.same t = true ↔ s = t
  | .named a, t => by cases t <;> simp [Ty.same]
  | .generic a as, t => by cases t <;> simp [Ty.same, TypeArg.allSame_iff as]

theorem TypeArg.allSame_iff : ∀ as bs : List TypeArg, TypeArg.allSame as bs = true ↔ as = bs
  | [], bs => by cases bs <;> simp [TypeArg.allSame]
  | ⟨a, s⟩ :: as, bs => by
    cases bs with
    | nil => simp [TypeArg.allSame]
    | cons b bs => cases b; simp [TypeArg.allSame, Ty.same_iff s, TypeArg.allSame_iff as]

end

instance : DecidableEq Ty := fun s t => decidable_of_iff _ (Ty.same_iff s t)

instance : DecidableEq TypeArg := fun ⟨a, s⟩ ⟨b, t⟩ =>
  decidable_of_iff (a = b ∧ s = t) (by simp)

deriving instance DecidableEq for Param

mutual

def Expr.same : Expr → Expr → Bool
  | .num a i, .num b j => a == b && i == j
  | .str a, .str b => a == b
  | .ident a, .ident b => a == b
  | .func ps s b, .func qs t c => ps == qs && s == t && b.same c
  | .create s as, .create t bs => s == t && Arg.allSame as bs
  | .call f as, .call g bs => f == g && Arg.allSame as bs
  | _, _ => false

def Arg.allSame : List Arg → List Arg → Bool
  | [], [] => true
  | ⟨a, v⟩ :: as, ⟨b, w⟩ :: bs => a == b && v.same w && Arg.allSame as bs
  | _, _ => false

def Stmt.same : Stmt → Stmt → Bool
  | .assign a i v, .assign b j w => a == b && i == j && v.same w
  | .eval v, .eval w => v.same w
  | .forEach a v s, .forEach b w t => a == b && v.same w && s.same t
  | .whileDo v s, .whileDo w t => v.same w && s.same t
  | .branch cs none, .branch ds none => Case.allSame cs ds
  | .branch cs (some s), .branch ds (some t) => Case.allSame cs ds && s.same t
  | .ret none, .ret none => true
  | .ret (some v), .ret (some w) => v.same w
  | .brk, .brk => true
  | .cont, .cont => true
  | .suite ss, .suite ts => Stmt.allSame ss ts
  | _, _ => false

def Case.allSame : List Case → List Case → Bool
  | [], [] => true
  | ⟨v, s⟩ :: cs, ⟨w, t⟩ :: ds => v.same w && s.same t && Case.allSame cs ds
  | _, _ => false

def Stmt.allSame : List Stmt → List Stmt → Bool
  | [], [] => true
  | s :: ss, t :: ts => s.same t && Stmt.allSame ss ts
  | _, _ => false

end

mutual

theorem Expr.same_iff : ∀ v w : Expr, v.same w = true ↔ v = w
  | .num .., w => by cases w <;> simp [Expr.same]
  | .str _, w => by cases w <;> simp [Expr.same]
  | .ident _, w => by cases w <;> simp [Expr.same]
  | .func _ _ b, w => by cases w <;> simp [Expr.same, Stmt.same_iff b, and_assoc]
  | .create _ as, w => by cases w <;> simp [Expr.same, Arg.allSame_iff as]
  | .call _ as, w => by cases w <;> simp [Expr.same, Arg.allSame_iff as]

theorem Arg.allSame_iff : ∀ as bs : List Arg, Arg.allSame as bs = true ↔ as = bs
  | [], bs => by cases bs <;> simp [Arg.allSame]
  | ⟨_, v⟩ :: as, bs => by
    cases bs with
    | nil => simp [Arg.allSame]
    | cons b bs => cases b; simp [Arg.allSame, Expr.same_iff v, Arg.allSame_iff as]

theorem Stmt.same_iff : ∀ s t : Stmt, s.same t = true ↔ s = t
  | .assign _ _ v, t => by cases t <;> simp [Stmt.same, Expr.same_iff v, and_assoc]
  | .eval v, t => by cases t <;> simp [Stmt.same, Expr.same_iff v]
  | .forEach _ v s, t => by
    cases t <;> simp [Stmt.same, Expr.same_iff v, Stmt.same_iff s, and_assoc]
  | .whileDo v s, t => by cases t <;> simp [Stmt.same, Expr.same_iff v, Stmt.same_iff s]
  | .branch cs none, t => by
    cases t with
    | branch ds f => cases f <;> simp [Stmt.same, Case.allSame_iff cs]
    | _ => simp [Stmt.same]
  | .branch cs (some s), t => by
    cases t with
    | branch ds f => cases f <;> simp [Stmt.same, Case.allSame_iff cs, Stmt.same_iff s]
    | _ => simp [Stmt.same]
  | .ret none, t => by
    cases t with
    | ret v => cases v <;> simp [Stmt.same]
    | _ => simp [Stmt.same]
  | .ret (some v), t => by
    cases t with
    | ret w => cases w <;> simp [Stmt.same, Expr.same_iff v]
    | _ => simp [Stmt.same]
  | .brk, t => by cases t <;> simp [Stmt.same]
  | .cont, t => by cases t <;> simp [Stmt.same]
  | .suite ss, t => by cases t <;> simp [Stmt.same, Stmt.allSame_iff ss]

theorem Case.allSame_iff : ∀ cs ds : List Case, Case.allSame cs ds = true ↔ cs = ds
  | [], ds => by cases ds <;> simp [Case.allSame]
  | ⟨v, s⟩ :: cs, ds => by
    cases ds with
    | nil => simp [Case.allSame]
    | cons d ds =>
      cases d; simp [Case.allSame, Expr.same_iff v, Stmt.same_iff s, Case.allSame_iff cs]

theorem Stmt.allSame_iff : ∀ ss ts : List Stmt, Stmt.allSame ss ts = true ↔ ss = ts
  | [], ts => by cases ts <;> simp [Stmt.allSame]
  | s :: ss, ts => by
    cases ts with
    | nil => simp [Stmt.allSame]
    | cons t ts => simp [Stmt.allSame, Stmt.same_iff s, Stmt.allSame_iff ss]

end

instance : DecidableEq Expr := fun v w => decidable_of_iff _ (Expr.same_iff v w)
instance : DecidableEq Stmt := fun s t => decidable_of_iff _ (Stmt.same_iff s t)

instance : DecidableEq Arg := fun ⟨a, v⟩ ⟨b, w⟩ =>
  decidable_of_iff (a = b ∧ v = w) (by simp)

instance : DecidableEq Case := fun ⟨v, s⟩ ⟨w, t⟩ =>
  decidable_of_iff (v = w ∧ s = t) (by simp)

deriving instance DecidableEq for Node

end TreeIR
