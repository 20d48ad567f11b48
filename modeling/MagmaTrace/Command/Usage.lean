import MagmaTrace.Text.Cut

/-! # Help

The text that explains the command line, and the version it names.
-/

namespace MagmaTrace.Usage

open Text

def version : Text := lit "0.3.0"

/-- The help. Blank lines stand at both ends. -/
def help : Text :=
  joinLines
    [ [],
      lit "trace2lean v" ++ version,
      [],
      lit "Usage:",
      lit "  trace2lean <transcript>              Translate a prover transcript to Lean",
      lit "  trace2lean generate <proofs.lean>    " ++
        lit "Write TPTP problems for every theorem in a proofs file",
      lit "  trace2lean summarize <log_dir>       " ++
        lit "Summarize Vampire/Minimized statistics of .log files",
      [],
      lit "Options:",
      lit "  --out-dir=<dir>      Output directory, relative to the current directory",
      lit "                       (translate: default lean/Proof,",
      lit "                       generate: default benchmarks/input<N>)",
      lit "  --equations=<dir>    Equation database for generate (default benchmarks/Equations)",
      lit "  --stdout             Print the Lean document instead of writing a file",
      lit "  --verbose            Print each pipeline stage",
      lit "  --quiet              Print errors only",
      lit "  --help, -h           Show this help",
      lit "  --version, -v        Show version",
      [],
      lit "Environment:",
      lit "  TRACE2LEAN_OUTPUT_DIR, TRACE2LEAN_MAX_LINE_LENGTH, TRACE2LEAN_TACTIC,",
      lit "  TRACE2LEAN_HYPOTHESIS, TRACE2LEAN_VERBOSITY (also read from .env)",
      [],
      lit "Examples:",
      lit "  trace2lean output/Equation3_implies_Equation8.out",
      lit "  trace2lean generate --equations=benchmarks/Equations Proofs11.lean",
      lit "  trace2lean summarize logs",
      [] ]

end MagmaTrace.Usage
