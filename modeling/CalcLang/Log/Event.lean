import CalcLang.Text.Quoted

/-!
# Log events

What a compilation logs about itself. An event keeps the facts; its level, its target (the part
of the compiler that it comes from), the names of its fields and its line are functions of them.
Filters select events by the first three.
-/

namespace CalcLang.Log

/-- How important an event is. -/
inductive Level
  | error
  | warn
  | info
  | debug
  | trace
  deriving DecidableEq, Repr, Inhabited

namespace Level

/-- The place of a level among all levels, the most important first. -/
def rank : Level → Nat
  | error => 1
  | warn => 2
  | info => 3
  | debug => 4
  | trace => 5

/-- The name of a level, right-aligned in five columns. -/
def column : Level → String
  | error => "ERROR"
  | warn => " WARN"
  | info => " INFO"
  | debug => "DEBUG"
  | trace => "TRACE"

end Level

/-- Something that happened during a compilation. -/
inductive Event
  /-- A file was parsed. -/
  | parsed (file : String) (decls : Nat)
  /-- The sources of a directory were loaded. -/
  | loadedSources (dir : String) (files : Nat)
  /-- The names of a package were resolved. -/
  | built (package : String) (decls symbols : Nat)
  /-- A package was type checked. -/
  | checked (package : String) (errors : Nat)
  /-- A package was folded. -/
  | folded (package : String) (count : Nat)
  /-- A package was tagged. -/
  | tagged (package : String) (tags : Nat)
  /-- C was generated for a package. -/
  | generated (package : String) (bytes : Nat)
  /-- No output is made because of errors. -/
  | skipped (errors : Nat)
  /-- The output was written. -/
  | wrote (path : String)
  deriving DecidableEq, Repr

namespace Event

/-- The level of an event. -/
def level : Event → Level
  | skipped _ | wrote _ => .info
  | _ => .debug

/-- The part of the compiler that an event comes from. -/
def target : Event → String
  | parsed _ _ | loadedSources _ _ | skipped _ | wrote _ => "calcc"
  | built _ _ _ => "calc_ir::build"
  | checked _ _ => "calc_ir::check"
  | folded _ _ => "calc_ir::fold"
  | tagged _ _ => "calc_ir::tag"
  | generated _ _ => "calc_codegen"

/-- The names of the fields of an event. The message is one of them. -/
def fields : Event → List String
  | parsed _ _ => ["message", "file", "decls"]
  | loadedSources _ _ => ["message", "dir", "files"]
  | built _ _ _ => ["message", "package", "decls", "symbols"]
  | checked _ _ => ["message", "package", "errors"]
  | folded _ _ => ["message", "package", "folded"]
  | tagged _ _ => ["message", "package", "tags"]
  | generated _ _ => ["message", "package", "bytes"]
  | skipped _ => ["message", "errors"]
  | wrote _ => ["message", "path"]

/-- The message of an event and its fields. -/
def message : Event → String
  | parsed file decls => s!"parsed file={file} decls={decls}"
  | loadedSources dir files => s!"loaded package sources dir={dir} files={files}"
  | built package decls symbols =>
    s!"built package package={Text.quoted package} decls={decls} symbols={symbols}"
  | checked package errors => s!"type checked package package={package} errors={errors}"
  | folded package count => s!"folded constants package={package} folded={count}"
  | tagged package tags => s!"tagged package package={package} tags={tags}"
  | generated package bytes => s!"generated C package={package} bytes={bytes}"
  | skipped errors => s!"skipping code generation errors={errors}"
  | wrote path => s!"wrote output path={path}"

/-- The line of an event. -/
def line (e : Event) : String := e.level.column ++ " " ++ e.message

end Event

end CalcLang.Log
