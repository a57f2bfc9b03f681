import Docsmith.Decimal.Literal
import Docsmith.Fault

/-! # Settings

A setting comes from the environment, else from the settings file, else it has a default or is
missing. -/

namespace Docsmith.Settings

def file : List (String × String) :=
  [("LOG_LEVEL", "DEBUG"),
   ("OPENAI_BASE_URL", "https://dashscope.aliyuncs.com/compatible-mode/v1"),
   ("MODEL", "qwen-plus"),
   ("MODEL_TIMEOUT", "60"),
   ("MODEL_TEMPERATURE", "0"),
   ("MODEL_LANGUAGE", "Chinese"),
   ("TOKENIZER", "Amu/tao-8k"),
   ("TOKENIZER_MODEL", "Amu/tao-8k"),
   ("TOKENIZER_DIM", "1024")]

abbrev Environment := List (String × String)

def text? (env : Environment) (name : String) : Option String :=
  (env.lookup name).or (file.lookup name)

def text (env : Environment) (name : String) : Except Fault String :=
  match text? env name with
  | some s => .ok s
  | none => .error (.unsetSetting name)

def valueOr {α : Type} (read : String → Option α) (default : α) (env : Environment)
    (name : String) : Except Fault α :=
  match text? env name with
  | none => .ok default
  | some s =>
    match read s with
    | some a => .ok a
    | none => .error (.badSetting name s)

def int? (s : String) : Option Int := Decimal.readInt? s.toList

def real? (s : String) : Option Binary64 := Decimal.readReal? s.toList

inductive LogLevel where
  | debug
  | info
  | warning
  | error
  | critical
deriving Repr, DecidableEq

namespace LogLevel

def word : LogLevel → String
  | .debug => "DEBUG"
  | .info => "INFO"
  | .warning => "WARNING"
  | .error => "ERROR"
  | .critical => "CRITICAL"

def ofWord? (s : String) : Option LogLevel :=
  [debug, info, warning, error, critical].find? (·.word == s)

end LogLevel

def logLevel (env : Environment) : Except Fault LogLevel :=
  valueOr LogLevel.ofWord? .info env "LOG_LEVEL"

structure Chat where
  key : String
  url : String
  timeout : Int
  model : String
  temperature : Binary64
  language : String
  historyMax : Int
deriving Repr, DecidableEq

/-- The settings for the model. The first one that is missing or wrong, in this order, is
reported. -/
def chat (env : Environment) : Except Fault Chat := do
  let key ← text env "OPENAI_API_KEY"
  let url ← text env "OPENAI_BASE_URL"
  let timeout ← valueOr int? 30 env "MODEL_TIMEOUT"
  let model ← text env "MODEL"
  let temperature ← valueOr real? (.finite false 0 Binary64.minExponent) env "MODEL_TEMPERATURE"
  let language ← valueOr some "Chinese" env "MODEL_LANGUAGE"
  let historyMax ← valueOr int? (-1) env "HISTORY_MAX"
  return { key, url, timeout, model, temperature, language, historyMax }

def dimensions (env : Environment) : Except Fault Int :=
  valueOr int? 1024 env "TOKENIZER_DIM"

end Docsmith.Settings
