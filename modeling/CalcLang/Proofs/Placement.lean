import CalcLang.Compilation
import CalcLang.Proofs.Parsing
import CalcLang.Proofs.Reports
import Mathlib.Data.List.Nodup
import Mathlib.Data.Nat.Basic
import Mathlib.Order.Basic

/-!
# Where expressions stand

The operands of a form of a source text stand behind its opening parenthesis, one behind the other.
`Placed` says so about a tree, and `Spread` about declarations, which do not overlap either. Trees
that are read from source files are like that (`SourceMap.spread_decls`). Only the nodes of a chain
of operands share a position.

What is lowered of a tree stands where the tree does (`Resolution.near_lower`), and its nodes are at
different positions but for those of a chain (`Resolution.scattered_lower`).
-/

namespace CalcLang

namespace Pos

/-- The first position lies inside the second one. -/
structure Inside (q a : Pos) : Prop where
  file : q.file = a.file
  start : a.span.start ≤ q.span.start
  stop : q.span.stop ≤ a.span.stop

/-- Some characters between two offsets of a file. -/
structure Between (q : Pos) (file : FileId) (lo hi : Nat) : Prop where
  file : q.file = file
  start : lo ≤ q.span.start
  nonempty : q.span.start < q.span.stop
  stop : q.span.stop ≤ hi

variable {q a : Pos} {file : FileId} {lo hi lo' hi' : Nat}

theorem Between.widen (h : q.Between file lo hi) (hlo : lo' ≤ lo) (hhi : hi ≤ hi') :
    q.Between file lo' hi' :=
  ⟨h.file, hlo.trans h.start, h.nonempty, h.stop.trans hhi⟩

theorem Between.not_inside_before (ha : a.Between file lo hi) (h : q.span.start < lo) :
    ¬ q.Inside a :=
  fun hin => absurd hin.start (Nat.not_le.2 (h.trans_le ha.start))

theorem Between.not_inside_behind {file' : FileId} (ha : a.Between file lo hi)
    (hq : q.Between file' lo' hi') (h : hi ≤ lo') : ¬ q.Inside a := by
  intro hin
  have hstop := hin.stop
  have hstart := hq.start
  have hlt := hq.nonempty
  have hend := ha.stop
  omega

end Pos

/-! ## Expressions -/

/-- Between the offsets `lo` and `hi` of a file stands a form at `pos` with room for its operands
from `lo'` to `hi'`. If it is part of a chain, it may be at the position of the chain instead. -/
structure Room (file : FileId) (chain : Option Pos) (lo hi : Nat) (pos : Pos) (lo' hi' : Nat) :
    Prop where
  here : chain = some pos ∨ pos.Between file lo hi
  opening : pos.span.start < lo'
  left : lo ≤ lo'
  le : lo' ≤ hi'
  right : hi' ≤ hi

mutual

/-- An expression between two offsets of a file, with its operands in order and apart from each
other. An expression that starts a chain may be at the position of the chain. -/
inductive Placed (file : FileId) : Option Pos → Nat → Nat → Expr → Prop
  | int {chain : Option Pos} {lo hi : Nat} {value : Word} {pos : Pos}
    (h : pos.Between file lo hi) : Placed file chain lo hi (.int value pos)
  | bool {chain : Option Pos} {lo hi : Nat} {value : Bool} {pos : Pos}
    (h : pos.Between file lo hi) : Placed file chain lo hi (.bool value pos)
  | name {chain : Option Pos} {lo hi : Nat} {ident : Ident} (h : ident.pos.Between file lo hi) :
    Placed file chain lo hi (.name ident)
  | binary {chain : Option Pos} {lo hi lo' mid hi' : Nat} {op : BinaryOp} {lhs rhs : Expr}
    {pos : Pos} (r : Room file chain lo hi pos lo' hi') (hl : Placed file (some pos) lo' mid lhs)
    (hr : Placed file none mid hi' rhs) : Placed file chain lo hi (.binary op lhs rhs pos)
  | unary {chain : Option Pos} {lo hi lo' hi' : Nat} {op : UnaryOp} {operand : Expr} {pos : Pos}
    (r : Room file chain lo hi pos lo' hi') (ho : Placed file none lo' hi' operand) :
    Placed file chain lo hi (.unary op operand pos)
  | ifThen {chain : Option Pos} {lo hi lo' mid hi' : Nat} {test yes : Expr}
    {ty : Option TypeExpr} {pos : Pos} (r : Room file chain lo hi pos lo' hi')
    (ht : Placed file none lo' mid test) (hy : Placed file none mid hi' yes) :
    Placed file chain lo hi (.ifThen test ty yes pos)
  | ifThenElse {chain : Option Pos} {lo hi lo' mid mid' hi' : Nat} {test yes no : Expr}
    {ty : Option TypeExpr} {pos : Pos} (r : Room file chain lo hi pos lo' hi')
    (ht : Placed file none lo' mid test) (hy : Placed file none mid mid' yes)
    (hn : Placed file none mid' hi' no) : Placed file chain lo hi (.ifThenElse test ty yes no pos)
  | declare {chain : Option Pos} {lo hi lo' hi' : Nat} {name : Ident} {ty : TypeExpr} {pos : Pos}
    (r : Room file chain lo hi pos lo' hi') : Placed file chain lo hi (.declare name ty pos)
  | define {chain : Option Pos} {lo hi lo' hi' : Nat} {name : Ident} {ty : Option TypeExpr}
    {init : Expr} {pos : Pos} (r : Room file chain lo hi pos lo' hi')
    (hv : Placed file none lo' hi' init) : Placed file chain lo hi (.define name ty init pos)
  | assign {chain : Option Pos} {lo hi lo' hi' : Nat} {name : Ident} {value : Expr} {pos : Pos}
    (r : Room file chain lo hi pos lo' hi') (hv : Placed file none lo' hi' value) :
    Placed file chain lo hi (.assign name value pos)
  | call {chain : Option Pos} {lo hi lo' hi' : Nat} {name : Ident} {args : List Expr} {pos : Pos}
    (r : Room file chain lo hi pos lo' hi') (ha : AllPlaced file lo' hi' args) :
    Placed file chain lo hi (.call name args pos)
  | block {chain : Option Pos} {lo hi lo' hi' : Nat} {exprs : List Expr} {pos : Pos}
    (r : Room file chain lo hi pos lo' hi') (he : AllPlaced file lo' hi' exprs) :
    Placed file chain lo hi (.block exprs pos)

/-- Expressions between two offsets of a file, one behind the other. -/
inductive AllPlaced (file : FileId) : Nat → Nat → List Expr → Prop
  | nil {lo hi : Nat} (h : lo ≤ hi) : AllPlaced file lo hi []
  | cons {lo mid hi : Nat} {e : Expr} {es : List Expr} (h : Placed file none lo mid e)
    (hs : AllPlaced file mid hi es) : AllPlaced file lo hi (e :: es)

end

/-- Between two offsets of a file, or at the position of the chain. -/
def Near (file : FileId) (chain : Option Pos) (lo hi : Nat) (q : Pos) : Prop :=
  chain = some q ∨ q.Between file lo hi

section

variable {file : FileId} {chain : Option Pos} {lo hi lo' hi' a b : Nat} {pos q : Pos} {e : Expr}
  {es : List Expr}

theorem Near.between (h : Near file none lo hi q) : q.Between file lo hi :=
  h.resolve_left nofun

namespace Room

theorem bounds_le (r : Room file chain lo hi pos lo' hi') : lo ≤ hi :=
  r.left.trans (r.le.trans r.right)

/-- What stands in the room of a form. -/
theorem near (r : Room file chain lo hi pos lo' hi') (h : q.Between file a b) (ha : lo' ≤ a)
    (hb : b ≤ hi') : Near file chain lo hi q :=
  .inr (h.widen (r.left.trans ha) (hb.trans r.right))

/-- What starts a chain. -/
theorem near_first (r : Room file chain lo hi pos lo' hi') (h : Near file (some pos) lo' b q)
    (hb : b ≤ hi') : Near file chain lo hi q := by
  rcases h with h | h
  · cases h
    exact r.here
  · exact r.near h le_rfl hb

end Room

theorem Placed.le (h : Placed file chain lo hi e) : lo ≤ hi := by
  cases h with
  | int h | bool h | name h => exact h.start.trans (h.nonempty.le.trans h.stop)
  | binary r | unary r | ifThen r | ifThenElse r | declare r | define r | assign r | call r
  | block r => exact r.bounds_le

theorem Placed.pos_near (h : Placed file chain lo hi e) : Near file chain lo hi e.pos := by
  cases h with
  | int h | bool h | name h => exact .inr h
  | binary r | unary r | ifThen r | ifThenElse r | declare r | define r | assign r | call r
  | block r => exact r.here

/-- An expression that is not at the position of the chain is in no chain. -/
theorem Room.unchain (r : Room file (some pos) lo hi e.pos lo' hi') (hne : e.pos ≠ pos) :
    Room file none lo hi e.pos lo' hi' := by
  refine ⟨.inr (r.here.resolve_left fun heq => hne ?_), r.opening, r.left, r.le, r.right⟩
  exact (Option.some.inj heq).symm

theorem Placed.unchain (h : Placed file (some pos) lo hi e) (hne : e.pos ≠ pos) :
    Placed file none lo hi e := by
  cases h with
  | int h => exact .int h
  | bool h => exact .bool h
  | name h => exact .name h
  | binary r hl hr => exact .binary (r.unchain (e := .binary ..) hne) hl hr
  | unary r ho => exact .unary (r.unchain (e := .unary ..) hne) ho
  | ifThen r ht hy => exact .ifThen (r.unchain (e := .ifThen ..) hne) ht hy
  | ifThenElse r ht hy hn => exact .ifThenElse (r.unchain (e := .ifThenElse ..) hne) ht hy hn
  | declare r => exact .declare (r.unchain (e := .declare ..) hne)
  | define r hv => exact .define (r.unchain (e := .define ..) hne) hv
  | assign r hv => exact .assign (r.unchain (e := .assign ..) hne) hv
  | call r ha => exact .call (r.unchain (e := .call ..) hne) ha
  | block r he => exact .block (r.unchain (e := .block ..) hne) he

theorem AllPlaced.le (h : AllPlaced file lo hi es) : lo ≤ hi := by
  induction es generalizing lo with
  | nil =>
    cases h with
    | nil h => exact h
  | cons e es ih =>
    cases h with
    | cons h hs => exact h.le.trans (ih hs)

theorem AllPlaced.pos_between (h : AllPlaced file lo hi es) :
    ∀ e ∈ es, e.pos.Between file lo hi := by
  induction es generalizing lo with
  | nil => exact nofun
  | cons e es ih =>
    cases h with
    | cons h hs =>
      refine List.forall_mem_cons.2 ⟨h.pos_near.between.widen le_rfl hs.le, fun x hx => ?_⟩
      exact (ih hs x hx).widen h.le le_rfl

end

/-! ## Lowered expressions -/

mutual

/-- Where a node and the nodes inside it are. The nodes of a chain share one position, and it is
told once. -/
def Node.spots : Node → List Pos
  | .const _ pos | .error pos | .read _ _ _ pos | .declare _ _ _ pos => [pos]
  | .binary _ lhs rhs _ _ pos =>
    if lhs.pos = pos then lhs.spots ++ rhs.spots else pos :: (lhs.spots ++ rhs.spots)
  | .unary _ operand _ pos => pos :: operand.spots
  | .call _ _ args _ pos => pos :: Node.allSpots args
  | .ifThen test _ yes _ _ pos => pos :: (test.spots ++ yes.spots)
  | .ifThenElse test _ yes no _ _ pos => pos :: (test.spots ++ (yes.spots ++ no.spots))
  | .block nodes _ pos => pos :: Node.allSpots nodes
  | .assign _ _ value _ pos => pos :: value.spots
  | .define _ _ _ init pos => pos :: init.spots

/-- Where nodes and the nodes inside them are. -/
def Node.allSpots : List Node → List Pos
  | [] => []
  | n :: ns => n.spots ++ Node.allSpots ns

end

mutual

/-- The spots of a node are its positions. -/
theorem Node.mem_spots {q : Pos} : ∀ n : Node, q ∈ n.spots ↔ q ∈ n.positions
  | .const .. | .error .. | .read .. | .declare .. => Iff.rfl
  | .binary _ lhs rhs _ _ pos => by
    have hinner : q ∈ lhs.spots ++ rhs.spots ↔ q ∈ lhs.positions ++ rhs.positions := by
      rw [List.mem_append, List.mem_append, lhs.mem_spots, rhs.mem_spots]
    rw [spots, positions, List.mem_cons]
    split
    · next hpos =>
      refine hinner.trans (or_iff_right_of_imp ?_).symm
      rintro rfl
      exact List.mem_append_left _ (hpos ▸ lhs.pos_mem_positions)
    · rw [List.mem_cons, hinner]
  | .unary _ operand _ _ => by
    rw [spots, positions, List.mem_cons, List.mem_cons, operand.mem_spots]
  | .call _ _ args _ _ => by
    rw [spots, positions, List.mem_cons, List.mem_cons, Node.mem_allSpots args]
  | .ifThen test _ yes _ _ _ => by
    simp only [spots, positions, List.mem_cons, List.mem_append, test.mem_spots, yes.mem_spots]
  | .ifThenElse test _ yes no _ _ _ => by
    simp only [spots, positions, List.mem_cons, List.mem_append, test.mem_spots, yes.mem_spots,
      no.mem_spots]
  | .block nodes _ _ => by
    rw [spots, positions, List.mem_cons, List.mem_cons, Node.mem_allSpots nodes]
  | .assign _ _ value _ _ => by
    rw [spots, positions, List.mem_cons, List.mem_cons, value.mem_spots]
  | .define _ _ _ init _ => by
    rw [spots, positions, List.mem_cons, List.mem_cons, init.mem_spots]

theorem Node.mem_allSpots {q : Pos} : ∀ ns : List Node,
    q ∈ Node.allSpots ns ↔ q ∈ Node.allPositions ns
  | [] => Iff.rfl
  | n :: ns => by
    rw [allSpots, allPositions, List.mem_append, List.mem_append, n.mem_spots, mem_allSpots ns]

end

theorem Node.pos_mem_spots (n : Node) : n.pos ∈ n.spots := n.mem_spots.2 n.pos_mem_positions

section

variable {file : FileId} {chain : Option Pos} {lo mid hi lo' hi' : Nat} {pos : Pos}
  {qs qs' : List Pos}

/-- Different positions between two offsets of a file, or one of them at the position of the
chain. -/
structure Scattered (file : FileId) (chain : Option Pos) (lo hi : Nat) (qs : List Pos) : Prop where
  near : ∀ q ∈ qs, Near file chain lo hi q
  nodup : qs.Nodup

theorem Near.scattered (h : Near file chain lo hi pos) : Scattered file chain lo hi [pos] :=
  ⟨List.forall_mem_singleton.2 h, List.nodup_singleton pos⟩

/-- What stands before an offset and what stands behind it. -/
theorem Scattered.append (h : Scattered file none lo mid qs) (h' : Scattered file none mid hi qs')
    (hlo : lo ≤ mid) (hhi : mid ≤ hi) : Scattered file none lo hi (qs ++ qs') := by
  refine ⟨List.forall_mem_append.2 ⟨?_, ?_⟩, h.nodup.append h'.nodup fun q hq hq' => ?_⟩
  · exact fun q hq => .inr ((h.near q hq).between.widen le_rfl hhi)
  · exact fun q hq => .inr ((h'.near q hq).between.widen hlo le_rfl)
  · have hstop := (h.near q hq).between.stop
    have hlt := (h.near q hq).between.nonempty
    have hstart := (h'.near q hq').between.start
    omega

namespace Room

/-- No operand of a form is at the position of the form. -/
theorem scattered (r : Room file chain lo hi pos lo' hi') (h : Scattered file none lo' hi' qs) :
    Scattered file chain lo hi (pos :: qs) := by
  refine ⟨List.forall_mem_cons.2 ⟨r.here, fun q hq => ?_⟩, List.nodup_cons.2 ⟨?_, h.nodup⟩⟩
  · exact r.near (h.near q hq).between le_rfl le_rfl
  · intro hmem
    have hstart := (h.near pos hmem).between.start
    have hopening := r.opening
    omega

theorem scattered_one (r : Room file chain lo hi pos lo' hi') : Scattered file chain lo hi [pos] :=
  r.scattered ⟨nofun, .nil⟩

/-- An operand behind the ones before it in a chain. -/
theorem scattered_chain (r : Room file chain lo hi pos lo' hi')
    (h : Scattered file (some pos) lo' mid qs) (h' : Scattered file none mid hi' qs')
    (hlo : lo' ≤ mid) (hhi : mid ≤ hi') : Scattered file chain lo hi (qs ++ qs') := by
  refine ⟨List.forall_mem_append.2 ⟨?_, ?_⟩, h.nodup.append h'.nodup fun q hq hq' => ?_⟩
  · exact fun q hq => r.near_first (h.near q hq) hhi
  · exact fun q hq => r.near (h'.near q hq).between hlo le_rfl
  · have hstart := (h'.near q hq').between.start
    rcases h.near q hq with hchain | hbetween
    · have hopening := r.opening
      rw [Option.some.inj hchain] at hopening
      omega
    · have hlt := hbetween.nonempty
      have hstop := hbetween.stop
      omega

end Room

end

namespace Resolution

variable {file : FileId}

/-- A lowered expression is where the expression was. -/
theorem pos_lower (scope : ScopeId) (e : Expr) (n : Names) : (lower scope e n).1.pos = e.pos := by
  cases e with
  | name x =>
    rw [lower]
    split <;> rfl
  | assign x value pos =>
    rw [lower]
    dsimp only
    split <;> rfl
  | call x args pos =>
    rw [lower]
    dsimp only
    split <;> rfl
  | _ => rfl

mutual

/-- **No two nodes share a position, except those of a chain.** -/
theorem scattered_lower (scope : ScopeId) {chain : Option Pos} {lo hi : Nat} :
    ∀ {e : Expr} (n : Names), Placed file chain lo hi e →
      Scattered file chain lo hi (lower scope e n).1.spots
  | .int .., _, h | .bool .., _, h | .declare .., _, h => h.pos_near.scattered
  | .name x, n, h => by
    rw [lower]
    split
    · exact h.pos_near.scattered
    · exact h.pos_near.scattered
  | .binary op lhs rhs pos, n, .binary r hl hr => by
    have hrhs := scattered_lower scope (lower scope lhs n).2.1 hr
    rw [lower]
    dsimp only
    rw [Node.spots, pos_lower]
    split
    · exact r.scattered_chain (scattered_lower scope n hl) hrhs hl.le hr.le
    · next hne =>
      exact r.scattered ((scattered_lower scope n (hl.unchain hne)).append hrhs hl.le hr.le)
  | .unary _ operand _, n, .unary r ho => r.scattered (scattered_lower scope n ho)
  | .ifThen test _ yes _, n, .ifThen r ht hy =>
    r.scattered ((scattered_lower scope n ht).append (scattered_lower _ _ hy) ht.le hy.le)
  | .ifThenElse test _ yes no _, n, .ifThenElse r ht hy hn =>
    r.scattered ((scattered_lower scope n ht).append
      ((scattered_lower _ _ hy).append (scattered_lower _ _ hn) hy.le hn.le) ht.le
        (hy.le.trans hn.le))
  | .define _ _ init _, n, .define r hv => r.scattered (scattered_lower scope n hv)
  | .assign x value _, n, .assign r hv => by
    have hvalue := scattered_lower scope n hv
    rw [lower]
    dsimp only
    split
    · exact r.scattered hvalue
    · exact r.scattered_one
  | .call x args _, n, .call r ha => by
    have hargs := scattered_lowerAll scope n ha
    rw [lower]
    dsimp only
    split
    · exact r.scattered hargs
    · exact r.scattered_one
  | .block exprs _, n, .block r he => r.scattered (scattered_lowerAll _ _ he)

theorem scattered_lowerAll (scope : ScopeId) {lo hi : Nat} :
    ∀ {es : List Expr} (n : Names), AllPlaced file lo hi es →
      Scattered file none lo hi (Node.allSpots (lowerAll scope es n).1)
  | [], _, _ => ⟨nofun, .nil⟩
  | _ :: _, n, .cons h hs =>
    (scattered_lower scope n h).append (scattered_lowerAll scope _ hs) h.le hs.le

end

/-- What is lowered of an expression stands where the expression does. -/
theorem near_lower (scope : ScopeId) {chain : Option Pos} {lo hi : Nat} {e : Expr} (n : Names)
    (h : Placed file chain lo hi e) :
    ∀ q ∈ (lower scope e n).1.positions, Near file chain lo hi q :=
  fun q hq => (scattered_lower scope n h).near q ((Node.mem_spots _).2 hq)

theorem between_lowerAll (scope : ScopeId) {lo hi : Nat} {es : List Expr} (n : Names)
    (h : AllPlaced file lo hi es) :
    ∀ q ∈ Node.allPositions (lowerAll scope es n).1, q.Between file lo hi :=
  fun q hq => ((scattered_lowerAll scope n h).near q ((Node.mem_allSpots _).2 hq)).between

theorem scattered_lowerBody (scope : ScopeId) {body : Expr} {lo hi : Nat} (n : Names)
    (h : Placed file none lo hi body) :
    Scattered file none lo hi (lowerBody scope body n).1.spots := by
  cases hblock : body.isBlock with
  | false =>
    rw [lowerBody_of_isBlock hblock]
    exact scattered_lower scope n h
  | true =>
    cases h with
    | block r he => exact r.scattered (scattered_lowerAll scope n he)
    | _ => cases hblock

theorem between_lowerBody (scope : ScopeId) {body : Expr} {lo hi : Nat} (n : Names)
    (h : Placed file none lo hi body) :
    ∀ q ∈ (lowerBody scope body n).1.positions, q.Between file lo hi :=
  fun q hq => ((scattered_lowerBody scope n h).near q ((Node.mem_spots _).2 hq)).between

end Resolution

/-! ## Tokens -/

/-- Tokens between two offsets, one behind the other, each with some characters. -/
def InOrder (lo : Nat) : List Token → Nat → Prop
  | [], hi => lo ≤ hi
  | t :: ts, hi => lo ≤ t.span.start ∧ t.span.start < t.span.stop ∧ InOrder t.span.stop ts hi

namespace InOrder

variable {lo lo' hi : Nat} {t : Token} {ts us : List Token}

theorem earlier (h : InOrder lo ts hi) (hlo : lo' ≤ lo) : InOrder lo' ts hi := by
  cases ts with
  | nil => exact Nat.le_trans hlo h
  | cons t ts => exact ⟨hlo.trans h.1, h.2⟩

theorem tail (h : InOrder lo (t :: ts) hi) : InOrder lo ts hi :=
  h.2.2.earlier (h.1.trans h.2.1.le)

theorem le (h : InOrder lo ts hi) : lo ≤ hi := by
  induction ts with
  | nil => exact h
  | cons t ts ih => exact ih h.tail

/-- Tokens may be left out. -/
theorem of_sublist (hsub : us.Sublist ts) (h : InOrder lo ts hi) : InOrder lo us hi := by
  induction hsub generalizing lo with
  | slnil => exact h
  | cons t _ ih => exact ih h.tail
  | cons_cons t _ ih => exact ⟨h.1, h.2.1, ih h.2.2⟩

theorem append_iff : InOrder lo (ts ++ us) hi ↔ ∃ mid, InOrder lo ts mid ∧ InOrder mid us hi := by
  induction ts generalizing lo with
  | nil =>
    refine ⟨fun h => ⟨lo, Nat.le_refl lo, h⟩, ?_⟩
    rintro ⟨mid, hle, h⟩
    exact h.earlier hle
  | cons t ts ih =>
    rw [List.cons_append]
    simp only [InOrder, ih, and_assoc, exists_and_left]

/-- The place of what stands between two tokens. -/
theorem place_eq {opening closing : Token} (h : InOrder lo (opening :: (ts ++ [closing])) hi)
    (file : FileId) :
    Grammar.place file opening closing = ⟨file, opening.span.start, closing.span.stop⟩ := by
  obtain ⟨-, hopening, h⟩ := h
  obtain ⟨mid, hts, hle, hclosing, -⟩ := append_iff.1 h
  have := hts.le
  simp only [Grammar.place, Span.cover, Pos.mk.injEq, Span.mk.injEq, true_and]
  omega

/-- Tokens stand between the first and the last one. -/
theorem ends {opening closing : Token} (h : InOrder lo (opening :: (ts ++ [closing])) hi) :
    lo ≤ opening.span.start ∧ closing.span.stop ≤ hi ∧
      InOrder opening.span.start (opening :: (ts ++ [closing])) closing.span.stop := by
  obtain ⟨hlo, hopening, h⟩ := h
  obtain ⟨mid, hts, hle, hclosing, hhi⟩ := append_iff.1 h
  have hinner : InOrder opening.span.stop (ts ++ [closing]) closing.span.stop :=
    append_iff.2 ⟨mid, hts, hle, hclosing, Nat.le_refl _⟩
  exact ⟨hlo, hhi, le_rfl, hopening, hinner⟩

/-- Between two offsets, a form that starts and ends with a token has room for what is between. -/
theorem room {opening closing : Token} (h : InOrder lo (opening :: (ts ++ [closing])) hi)
    (file : FileId) (chain : Option Pos) : ∃ lo' hi',
    InOrder lo' ts hi' ∧ Room file chain lo hi (Grammar.place file opening closing) lo' hi' := by
  have hplace := h.place_eq file
  obtain ⟨hlo, hopening, h⟩ := h
  obtain ⟨mid, hts, hle, hclosing, hhi⟩ := append_iff.1 h
  have hmid := hts.le
  have hhi : closing.span.stop ≤ hi := hhi
  refine ⟨_, mid, hts, ?_⟩
  rw [hplace]
  exact ⟨.inr ⟨rfl, hlo, by dsimp only; omega, hhi⟩, hopening, by omega, hmid, by omega⟩

end InOrder

namespace Token

/-- Scanned tokens are in order. -/
theorem inOrder_scanFrom (offset : Nat) (cs : List Char) : ∃ ts eof hi,
    scanFrom offset cs = ts ++ [eof] ∧ eof.kind = .eof ∧ InOrder offset ts hi := by
  induction offset, cs using scanFrom.induct with
  | case1 offset =>
    exact ⟨[], _, offset, by rw [scanFrom, List.nil_append], rfl, Nat.le_refl offset⟩
  | case2 offset c cs hblank ih =>
    obtain ⟨ts, eof, hi, hscan, heof, hts⟩ := ih
    rw [scanFrom, if_pos hblank]
    exact ⟨ts, eof, hi, hscan, heof, hts.earlier (Nat.le_add_right ..)⟩
  | case3 offset c cs hblank m stop ih =>
    obtain ⟨ts, eof, hi, hscan, heof, hts⟩ := ih
    have hlt : offset < stop := by
      have := c.utf8Size_pos
      omega
    rw [scanFrom, if_neg hblank]
    exact ⟨_ :: ts, eof, hi, congrArg (_ :: ·) hscan, heof, Nat.le_refl offset, hlt, hts⟩

theorem inOrder_significant (text : String) : ∃ hi, InOrder 0 (significant text) hi := by
  obtain ⟨ts, eof, hi, hscan, heof, hts⟩ := inOrder_scanFrom 0 text.toList
  refine ⟨hi, hts.of_sublist ?_⟩
  rw [significant, scan, hscan, List.filter_append]
  simp [heof]

end Token

/-! ## Texts -/

namespace Grammar

variable {file : FileId} {chain : Option Pos} {lo hi lo' mid hi' : Nat} {pos : Pos}

/-- Operands behind what starts a chain. -/
theorem placed_chain {op : BinaryOp} {first second : Expr} {rest : List Expr}
    (r : Room file chain lo hi pos lo' hi') (hfirst : Placed file (some pos) lo' mid first)
    (hrest : AllPlaced file mid hi' (second :: rest)) :
    Placed file chain lo hi
      ((second :: rest).foldl (fun lhs rhs => .binary op lhs rhs pos) first) := by
  induction rest generalizing first second mid with
  | nil =>
    cases hrest with
    | @cons _ mid' _ _ _ h hs =>
      have r' : Room file chain lo hi pos lo' mid' :=
        ⟨r.here, r.opening, r.left, hfirst.le.trans h.le, hs.le.trans r.right⟩
      exact .binary r' hfirst h
  | cons third rest ih =>
    cases hrest with
    | @cons _ mid' _ _ _ h hs =>
      have r' : Room file (some pos) lo' mid' pos lo' mid' :=
        ⟨.inl rfl, r.opening, le_rfl, hfirst.le.trans h.le, le_rfl⟩
      exact ih (.binary r' hfirst h) hs

mutual

/-- What tokens in order stand for stands where they do. -/
theorem Phrase.placed {chain : Option Pos} {lo hi : Nat} :
    ∀ p : Phrase, InOrder lo p.tokens hi → Placed file chain lo hi (p.tree file)
  | .int .., ⟨hlo, hlt, hhi⟩ => .int ⟨rfl, hlo, hlt, hhi⟩
  | .truth .., ⟨hlo, hlt, hhi⟩ => .bool ⟨rfl, hlo, hlt, hhi⟩
  | .falsehood .., ⟨hlo, hlt, hhi⟩ => .bool ⟨rfl, hlo, hlt, hhi⟩
  | .name .., ⟨hlo, hlt, hhi⟩ => .name ⟨rfl, hlo, hlt, hhi⟩
  | .list _ content _, h => by
    obtain ⟨lo', hi', hcontent, r⟩ := h.room file chain
    exact content.placed r hcontent

theorem Content.placed {chain : Option Pos} {lo hi lo' hi' : Nat} {pos : Pos} :
    ∀ c : Content, Room file chain lo hi pos lo' hi' → InOrder lo' c.tokens hi' →
      Placed file chain lo hi (c.tree file pos)
  | .unary _ _ operand, r, h => .unary r (operand.placed h.tail)
  | .chain _ _ first second rest, r, h => by
    obtain ⟨mid, hfirst, h⟩ := InOrder.append_iff.1 h.tail
    obtain ⟨mid', hsecond, hrest⟩ := InOrder.append_iff.1 h
    exact placed_chain r (first.placed hfirst)
      (.cons (second.placed hsecond) (Phrase.allPlaced rest hrest))
  | .ifThen _ test type yes, r, h => by
    have h := h.tail.of_sublist ((List.Sublist.refl _).append (List.sublist_append_right ..))
    obtain ⟨mid, htest, hyes⟩ := InOrder.append_iff.1 h
    exact .ifThen r (test.placed htest) (yes.placed hyes)
  | .ifThenElse _ test type yes no, r, h => by
    have h := h.tail.of_sublist ((List.Sublist.refl _).append (List.sublist_append_right ..))
    obtain ⟨mid, htest, h⟩ := InOrder.append_iff.1 h
    obtain ⟨mid', hyes, hno⟩ := InOrder.append_iff.1 h
    exact .ifThenElse r (test.placed htest) (yes.placed hyes) (no.placed hno)
  | .declare .., r, _ => .declare r
  | .define _ _ _ _ init _ _, r, h =>
    .define r (init.placed (h.tail.tail.tail.tail.of_sublist (List.sublist_append_left ..)))
  | .assign _ _ value, r, h => .assign r (value.placed h.tail.tail)
  | .call _ args, r, h => .call r (Phrase.allPlaced args h.tail)
  | .block opening first closing rest, r, h => by
    have hsplit : (Content.block opening first closing rest).tokens =
        (opening.token :: (first.tokens ++ [closing.token])) ++ Phrase.allTokens rest := by
      simp [Content.tokens]
    rw [hsplit] at h
    obtain ⟨mid, hfirst, hrest⟩ := InOrder.append_iff.1 h
    obtain ⟨lo', hi', hcontent, r'⟩ := hfirst.room file none
    exact .block r (.cons (first.placed r' hcontent) (Phrase.allPlaced rest hrest))

theorem Phrase.allPlaced {lo hi : Nat} : ∀ ps : List Phrase, InOrder lo (Phrase.allTokens ps) hi →
    AllPlaced file lo hi (Phrase.trees file ps)
  | [], h => .nil h
  | p :: ps, h => by
    obtain ⟨mid, hp, hps⟩ := InOrder.append_iff.1 h
    exact .cons (p.placed hp) (Phrase.allPlaced ps hps)

end

end Grammar

namespace Decl

/-- A position between the parentheses of a declaration. -/
def Contains (d : Decl) (q : Pos) : Prop :=
  q.Between d.pos.file d.pos.span.start d.pos.span.stop

/-- The body of a declaration stands inside the declaration. -/
def Placed (d : Decl) : Prop :=
  CalcLang.Placed d.pos.file none d.pos.span.start d.pos.span.stop d.body

/-- If two declarations are in one file, the first one ends before the second one starts. -/
def Before (d e : Decl) : Prop := d.pos.file = e.pos.file → d.pos.span.stop ≤ e.pos.span.start

theorem Before.not_inside {d e : Decl} (h : d.Before e) {p q : Pos} (hp : d.Contains p)
    (hq : e.Contains q) : ¬ p.Inside q ∧ ¬ q.Inside p := by
  have hfile : p.file = q.file → d.pos.span.stop ≤ e.pos.span.start := fun heq =>
    h (hp.file.symm.trans (heq.trans hq.file))
  refine ⟨fun hin => ?_, fun hin => ?_⟩
  · have hlt := (hp.nonempty.trans_le hp.stop).trans_le (hfile hin.file)
    exact hq.not_inside_before hlt hin
  · exact hp.not_inside_behind hq (hfile hin.file.symm) hin

end Decl

/-- Declarations that stand one behind the other in their files. -/
structure Spread (ds : List Decl) : Prop where
  placed : ∀ d ∈ ds, d.Placed
  before : ds.Pairwise Decl.Before

theorem Spread.of_sublist {ds es : List Decl} (h : Spread ds) (hsub : es.Sublist ds) : Spread es :=
  ⟨fun d hd => h.placed d (hsub.subset hd), h.before.sublist hsub⟩

namespace Parse

open Grammar

/-- A declaration stands where its form does, and its body inside it. -/
theorem placed_decl {file : FileId} {opening closing : Token} {items : List Form} {d : Decl}
    {lo hi : Nat} (hn : (Form.list opening items closing).Nested)
    (h : InOrder lo (Form.list opening items closing).flatten hi)
    (hd : decl file opening closing (formItems file items) = .ok d) :
    d.pos.file = file ∧ lo ≤ d.pos.span.start ∧ d.pos.span.stop ≤ hi ∧ d.Placed := by
  obtain ⟨⟨first, word, name, ps, type, body, last⟩, hform, rfl⟩ :=
    decl_inv hn.1 (known_of_allNested items hn.2) hd
  rw [← hform, Definition.flatten_form] at h
  have hsplit : (Definition.mk first word name ps type body last).tokens = first.token ::
      ((word.token :: name.token :: (paramsTokens ps ++ type.token :: body.tokens)) ++
        [last.token]) := by
    simp [Definition.tokens]
  rw [hsplit] at h
  have hplace := h.place_eq file
  obtain ⟨hlo, hhi, hends⟩ := h.ends
  have hbody : body.tokens.Sublist (first.token ::
      ((word.token :: name.token :: (paramsTokens ps ++ type.token :: body.tokens)) ++
        [last.token])) := by
    refine .cons _ (List.Sublist.trans ?_ (List.sublist_append_left ..))
    exact .cons _ (.cons _ ((List.sublist_cons_self ..).trans (List.sublist_append_right ..)))
  rw [Decl.Placed, Definition.tree, hplace]
  exact ⟨rfl, hlo, hhi, body.placed (hends.of_sublist hbody)⟩

/-- Declarations that are read of forms in order. -/
theorem spread_topLevel {file : FileId} {fs : List Form} {lo hi : Nat} (inRun : Bool)
    (hn : ∀ opening items closing, .list opening items closing ∈ fs →
      (Form.list opening items closing).Nested)
    (h : InOrder lo (Form.flattenAll fs) hi) :
    Spread (successes (topLevel file inRun fs)) ∧
      ∀ d ∈ successes (topLevel file inRun fs), d.pos.file = file ∧ lo ≤ d.pos.span.start := by
  induction fs generalizing inRun lo with
  | nil => exact ⟨⟨nofun, .nil⟩, nofun⟩
  | cons f fs ih =>
    have hn' := fun o is c hmem => hn o is c (List.mem_cons_of_mem f hmem)
    obtain ⟨mid, hf, hfs⟩ := InOrder.append_iff.1 h
    cases f with
    | atom t =>
      obtain ⟨hspread, hstart⟩ := ih true hn' (hfs.earlier hf.le)
      cases inRun
      · exact ⟨hspread, hstart⟩
      · exact ⟨hspread, hstart⟩
    | list opening items closing =>
      obtain ⟨hspread, hstart⟩ := ih false hn' hfs
      have hlo : ∀ d ∈ successes (topLevel file false fs),
          d.pos.file = file ∧ lo ≤ d.pos.span.start := fun d hd =>
        ⟨(hstart d hd).1, hf.le.trans (hstart d hd).2⟩
      rw [topLevel]
      cases hd : decl file opening closing (formItems file items) with
      | error e => exact ⟨hspread, hlo⟩
      | ok d =>
        obtain ⟨hfile, hdlo, hdhi, hplaced⟩ :=
          placed_decl (hn opening items closing List.mem_cons_self) hf hd
        refine ⟨⟨List.forall_mem_cons.2 ⟨hplaced, hspread.placed⟩, .cons ?_ hspread.before⟩,
          List.forall_mem_cons.2 ⟨⟨hfile, hdlo⟩, hlo⟩⟩
        exact fun e he _ => hdhi.trans (hstart e he).2

theorem spread_ofText (file : FileId) (text : String) :
    Spread (ofText file text).decls ∧ ∀ d ∈ (ofText file text).decls, d.pos.file = file := by
  obtain ⟨eof, heof, hscan⟩ := Token.filter_scan text
  obtain ⟨hi, horder⟩ := Token.inOrder_significant text
  have hforms : Form.flattenAll (Form.ofTokens (Token.significant text ++ [eof])) =
      Token.significant text := by
    rw [Form.flatten_ofTokens, Token.takeWhile_significant heof]
  obtain ⟨hspread, hstart⟩ := @spread_topLevel file _ 0 hi false
    (fun _ _ _ => Form.nested_of_mem_ofTokens) (hforms.symm ▸ horder)
  rw [ofText, ofTokens, hscan]
  exact ⟨hspread, fun d hd => (hstart d hd).1⟩

end Parse

namespace Parse

/-- The declarations of some source files. -/
def files (sources : List (FileId × String)) : List (List Decl) :=
  sources.map fun s => (ofText s.1 s.2).decls

/-- The declarations of source files with different numbers do not overlap. -/
theorem spread_files {sources : List (FileId × String)} (h : (sources.map Prod.fst).Nodup) :
    Spread (files sources).flatten := by
  rw [files, ← List.flatMap_def]
  refine ⟨fun d hd => ?_, List.pairwise_flatMap.2 ⟨fun s _ => (spread_ofText s.1 s.2).1.before, ?_⟩⟩
  · obtain ⟨s, -, hd⟩ := List.mem_flatMap.1 hd
    exact (spread_ofText s.1 s.2).1.placed d hd
  · refine (List.pairwise_map.1 h).imp fun {s s'} hne d hd e he heq => absurd ?_ hne
    rw [← (spread_ofText s.1 s.2).2 d hd, heq, (spread_ofText s'.1 s'.2).2 e he]

end Parse

namespace SourceMap

/-- The texts of a source map, with the numbers of their files. -/
def texts (sources : SourceMap) : List (FileId × String) :=
  sources.files.toList.zipIdx.map fun f => (⟨f.2⟩, f.1.text)

theorem nodup_texts (sources : SourceMap) : (sources.texts.map Prod.fst).Nodup := by
  have hnumbers : (sources.files.toList.zipIdx.map Prod.snd).Nodup := by
    rw [List.zipIdx_map_snd]
    exact List.nodup_range'
  rw [texts, List.map_map]
  refine List.pairwise_map.2 ((List.pairwise_map.1 hnumbers).imp fun hne heq => hne ?_)
  exact congrArg FileId.index heq

/-- The declarations of the files of a source map, of which `compile` builds a package. -/
def decls (sources : SourceMap) : List (List Decl) :=
  (Compile.parseAll sources).map fun p => p.2.2.decls

theorem decls_eq (sources : SourceMap) : sources.decls = Parse.files sources.texts := by
  rw [decls, Compile.parseAll, Parse.files, texts, List.map_map, List.map_map]
  rfl

/-- The declarations of source files do not overlap. -/
theorem spread_decls (sources : SourceMap) : Spread sources.decls.flatten := by
  rw [decls_eq]
  exact Parse.spread_files sources.nodup_texts

end SourceMap

end CalcLang
