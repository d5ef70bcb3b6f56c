import CalcLang.Log.Directive

/-!
# Log filters

A filter decides which events are shown. It is either a verbosity, which sets one level for all
events, or a list of directives. Of the directives that are about an event, the most particular
decides: first one with the longest target, of these one that asks for a field. A later directive
replaces an earlier one about the same events.
-/

namespace CalcLang.Log

/-- The level that a verbosity shows, as a rank. Warnings are always shown. -/
def verbosityRank : Nat → Nat
  | 0 => Level.warn.rank
  | 1 => Level.info.rank
  | 2 => Level.debug.rank
  | _ => Level.trace.rank

/-- Which events are shown. -/
inductive Filter
  /-- All events up to the level of a rank. -/
  | upTo (rank : Nat)
  | directives (ds : List Directive)
  deriving Repr, Inhabited

namespace Filter

/-- The filter for a verbosity, unless a well-formed list of directives is given. -/
def ofSettings (verbosity : Nat) (text : Option String) : Except Fault Filter :=
  match text.map directives? with
  | some (.ok ds) => .ok (directives ds)
  | some (.error (.cut fault)) => .error fault
  | some (.error .malformed) => .ok (upTo (verbosityRank verbosity))
  | none => .ok (upTo (verbosityRank verbosity))

/-- The directive that decides about an event, if there is one. -/
def deciding (ds : List Directive) (e : Event) : Option Directive :=
  (ds.filter fun d => d.isAbout e).foldl
    (fun best d =>
      match best with
      | none => some d
      | some b => if d.isLessParticular b then some b else some d)
    none

/-- The rank up to which a filter shows events like `e`. -/
def rankFor (f : Filter) (e : Event) : Nat :=
  match f with
  | upTo rank => rank
  | directives ds =>
    match deciding ds e with
    | some d => d.rank
    | none => 0

/-- Whether an event is shown. -/
def shows (f : Filter) (e : Event) : Bool := e.level.rank ≤ f.rankFor e

end Filter

end CalcLang.Log
