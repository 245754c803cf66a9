import RunnerOrchestrator.Common.Text

/-! # The runner's command parser

A cursor is the part of the string still to be read. Tokens live on the heap: each
has the number of the call that allocated it, and the ledger records which of them
have been freed. A function that would leave an array or not come to an end has no
result.
-/

namespace RunnerOrchestrator

/-- `PARSER_MAX_STAGES`. -/
def parserMaxStages : Nat := 16

/-- `PARSER_MAX_ARGS`. -/
def parserMaxArgs : Nat := 32

/-- `PARSER_INPUT_BUFFER`. -/
def parserInputBuffer : Nat := 1024

/-! ## Tokens -/

structure Token where
  id : Nat
  text : CString
deriving Repr, DecidableEq

/-- The number of `malloc` calls, and the tokens allocated and freed, in order. -/
structure Ledger where
  mallocs : Nat
  allocated : List Nat
  freed : List Nat
deriving Repr, DecidableEq

def Ledger.start : Ledger := ⟨0, [], []⟩

/-- `free` of a token or of NULL. -/
def Ledger.free (l : Ledger) (token : Option Token) : Ledger :=
  match token with
  | none => l
  | some t => { l with freed := l.freed ++ [t.id] }

def skipSpaces (cursor : CString) : CString := cursor.dropWhile isSpace

/-- The range is `text`; the answer of each `malloc` is looked up by its number. -/
def duplicateRange (malloc : Nat → Bool) (text : CString) (l : Ledger) : Option Token × Ledger :=
  if malloc l.mallocs then
    (some ⟨l.mallocs, text⟩,
      { l with mallocs := l.mallocs + 1, allocated := l.allocated ++ [l.mallocs] })
  else (none, { l with mallocs := l.mallocs + 1 })

/-- Neither whitespace nor a redirection operator. -/
def isWordByte (c : UInt8) : Bool := !isSpace c && c != 60 && c != 62

/-- `none` is NULL; otherwise the token and the position after it. -/
def parseToken (malloc : Nat → Bool) (cursor : CString) (l : Ledger) :
    Option (Token × CString) × Ledger :=
  let start := skipSpaces cursor
  match start with
  | [] => (none, l)
  | c :: _ =>
      if c = 60 ∨ c = 62 then (none, l)
      else
        let copy := duplicateRange malloc (start.takeWhile isWordByte) l
        (copy.1.map fun token => (token, start.dropWhile isWordByte), copy.2)

/-! ## Stages -/

structure CommandStage where
  argv : List (Option Token)
  inputFile : Option Token
  outputFile : Option Token
  errorFile : Option Token
deriving Repr, DecidableEq

/-- A stage after `memset`. -/
def CommandStage.zero : CommandStage := ⟨List.replicate parserMaxArgs none, none, none, none⟩

/-- Which redirection field `redirect_target` points to. -/
inductive RedirectTarget
  | inputFile | outputFile | errorFile
deriving Repr, DecidableEq

def CommandStage.target (stage : CommandStage) : RedirectTarget → Option Token
  | .inputFile => stage.inputFile
  | .outputFile => stage.outputFile
  | .errorFile => stage.errorFile

def CommandStage.setTarget (stage : CommandStage) (target : RedirectTarget) (token : Token) :
    CommandStage :=
  match target with
  | .inputFile => { stage with inputFile := some token }
  | .outputFile => { stage with outputFile := some token }
  | .errorFile => { stage with errorFile := some token }

/-- `stage->argv[argc] = value`, inside the array only. -/
def CommandStage.setArg (stage : CommandStage) (argc : Nat) (value : Option Token) :
    Option CommandStage :=
  if argc < stage.argv.length then some { stage with argv := stage.argv.set argc value } else none

/-- The operator at the cursor, with the position after it. -/
def operatorAt : CString → Option (RedirectTarget × CString)
  | 50 :: 62 :: rest => some (.errorFile, rest)
  | 60 :: rest => some (.inputFile, rest)
  | 62 :: rest => some (.outputFile, rest)
  | _ => none

/-- The loop of `parse_stage`, for at most `fuel` rounds; the flag is false for -1. -/
def parseStageLoop (malloc : Nat → Bool) :
    Nat → CString → Nat → CommandStage → Ledger → Option (Bool × CommandStage × Ledger)
  | 0, _, _, _, _ => none
  | fuel + 1, cursor, argc, stage, l =>
      let cursor := skipSpaces cursor
      if cursor = [] then (stage.setArg argc none).map fun stage => (true, stage, l)
      else
        match operatorAt cursor with
        | some (target, cursor) =>
            match parseToken malloc cursor l with
            | (none, l) => some (false, stage, l)
            | (some (token, nextCursor), l) =>
                parseStageLoop malloc fuel nextCursor argc (stage.setTarget target token)
                  (l.free (stage.target target))
        | none =>
            match parseToken malloc cursor l with
            | (none, l) => some (false, stage, l)
            | (some (token, nextCursor), l) =>
                if argc < parserMaxArgs - 1 then
                  (stage.setArg argc (some token)).bind fun stage =>
                    parseStageLoop malloc fuel nextCursor (argc + 1) stage l
                else parseStageLoop malloc fuel nextCursor argc stage (l.free (some token))

/-- Every round consumes at least one byte. -/
def parseStage (malloc : Nat → Bool) (stage : CommandStage) (stageStr : CString) (l : Ledger) :
    Option (Bool × CommandStage × Ledger) :=
  parseStageLoop malloc (stageStr.length + 1) stageStr 0 stage l

/-! ## Commands -/

structure ParsedCommand where
  stageCount : Nat
  stages : List CommandStage
deriving Repr, DecidableEq

def ParsedCommand.zero : ParsedCommand := ⟨0, List.replicate parserMaxStages .zero⟩

/-- `strtok_r` with the delimiter '|': the next token and what is left for the next call. -/
def strtokR (s : CString) : Option (CString × CString) :=
  let start := s.dropWhile fun c => c == 124
  if start = [] then none
  else some (start.takeWhile fun c => c != 124, (start.dropWhile fun c => c != 124).drop 1)

/-- Frees the arguments up to the first NULL and the three targets. -/
def destroyStage (stage : CommandStage) (l : Ledger) : Ledger :=
  let l := (stage.argv.takeWhile Option.isSome).foldl Ledger.free l
  ((l.free stage.inputFile).free stage.outputFile).free stage.errorFile

/-- The stages before `stage_count` are destroyed. -/
def parserDestroy (cmd : ParsedCommand) (l : Ledger) : Ledger :=
  (cmd.stages.take cmd.stageCount).foldl (fun l stage => destroyStage stage l) l

/-- The loop of `parser_parse`, with `left` stages still free; the inner `none` is NULL. -/
def parseStages (malloc : Nat → Bool) :
    Nat → CString → ParsedCommand → Ledger → Option (Option ParsedCommand × Ledger)
  | 0, _, parsed, l => some (some parsed, l)
  | left + 1, save, parsed, l =>
      match strtokR save with
      | none => some (some parsed, l)
      | some (stageStr, save) =>
          match parsed.stages[parsed.stageCount]? with
          | none => none
          | some stage =>
              match parseStage malloc stage stageStr l with
              | none => none
              | some (ok, stage, l) =>
                  let parsed := { parsed with stages := parsed.stages.set parsed.stageCount stage }
                  if ok then
                    parseStages malloc left save { parsed with stageCount := parsed.stageCount + 1 } l
                  else some (none, parserDestroy parsed l)

/-- The first `malloc` is that of the command itself. -/
def parserParse (malloc : Nat → Bool) (input : CString) : Option (Option ParsedCommand × Ledger) :=
  if malloc 0 then
    parseStages malloc parserMaxStages (bounded parserInputBuffer input) .zero
      { Ledger.start with mallocs := 1 }
  else some (none, { Ledger.start with mallocs := 1 })

def parserGetStageCount (cmd : ParsedCommand) : Nat := cmd.stageCount

/-- A stage that the accessors may look at. -/
def ParsedCommand.stage? (cmd : ParsedCommand) (stageIdx : Nat) : Option CommandStage :=
  if stageIdx < cmd.stageCount then cmd.stages[stageIdx]? else none

def parserGetStageArgv (cmd : ParsedCommand) (stageIdx : Nat) : Option (List (Option Token)) :=
  (cmd.stage? stageIdx).map CommandStage.argv

def parserGetInputFile (cmd : ParsedCommand) (stageIdx : Nat) : Option Token :=
  (cmd.stage? stageIdx).bind CommandStage.inputFile

def parserGetOutputFile (cmd : ParsedCommand) (stageIdx : Nat) : Option Token :=
  (cmd.stage? stageIdx).bind CommandStage.outputFile

def parserGetErrorFile (cmd : ParsedCommand) (stageIdx : Nat) : Option Token :=
  (cmd.stage? stageIdx).bind CommandStage.errorFile

end RunnerOrchestrator
