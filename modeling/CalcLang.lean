import CalcLang.Files.Tree
import CalcLang.Main
import CalcLang.Proofs.C.Capture
import CalcLang.Proofs.C.GeneratedProgram
import CalcLang.Proofs.NormalForm
import CalcLang.Proofs.Parsing
import CalcLang.Proofs.Policy
import CalcLang.Proofs.Recovery
import CalcLang.Proofs.Safety
import CalcLang.Proofs.Unresolved
import CalcLang.Proofs.WellFormed
import CalcLang.Proofs.C.Gaps
import CalcLang.Proofs.Origins
import CalcLang.Proofs.Frames
import CalcLang.Proofs.Subjects
import CalcLang.Proofs.Pointers
import CalcLang.Proofs.Modular
import CalcLang.Proofs.Guarded.Compilation
import CalcLang.Proofs.Tokenizing
import CalcLang.Proofs.C.Entry
import CalcLang.Proofs.Roundtrip
import CalcLang.Proofs.Locations
import CalcLang.Proofs.Spacing
import CalcLang.Proofs.Nesting
import CalcLang.Proofs.ReportedOnce
import CalcLang.Proofs.ScopeHistory
import CalcLang.Proofs.C.Effects
import CalcLang.Proofs.OutputPlaces
import CalcLang.Proofs.OwnFiles
import CalcLang.Proofs.Ranges
import CalcLang.Proofs.Progress
