import CallMetrics.Text.Letters

/-! Keys whose values must not be shown: those whose upper-case form holds one of a few words. -/

namespace CallMetrics

def secretWords : List String :=
  ["TOKEN", "SECRET", "PASSWORD", "CREDENTIAL", "AUTH", "COOKIE", "API_KEY", "APIKEY"]

def occursIn (part : List Char) : List Char → Bool
  | [] => part.isEmpty
  | c :: rest => part.isPrefixOf (c :: rest) || occursIn part rest

def isSecretKey (key : String) : Bool :=
  secretWords.any fun word => occursIn word.toList (Text.upper key).toList

def secretMask : String := "[REDACTED]"

def maskIfSecret (key value : String) : String := if isSecretKey key then secretMask else value

end CallMetrics
