import Tun2Simple.Stack.Bypass

/-!
# The domain rules and their cache (`stack/rule.go`)

`Rule` holds the rule lines, each a regular expression, and a cache from the text of an address to
the domain it was resolved for. `regexp.MatchString` is a parameter: `none` stands for an error.

The goroutine `dnsProc` is left out: its body is that of `ParseDns`, and nothing sends to the
channel it reads.
-/

namespace Stack

open Net

structure Rule where
  matcher : List Bytes
  ipToDomain : StrMap Bytes

def newRule : Rule := ⟨[], ∅⟩

/-- The lines of at least four bytes. -/
def parseRule (s : Bytes) : List Bytes := (splitLines s).filter fun domain => ¬ domain.length < 4

/-- The body of a DNS answer. -/
inductive Body where
  | aResource (a b c d : UInt8)
  | other

/-- What `ParseDns` reads of a message: the names of the questions and the bodies of the answers. -/
structure Message where
  questions : List Bytes
  answers : List Body

namespace Rule

def setup (r : Rule) (s : Bytes) : Rule := { r with matcher := parseRule s }

/-- The domain in the cache, empty if there is none. -/
def needProxy (r : Rule) (ip : Bytes) : Bytes := (r.ipToDomain.lookup ip).getD []

section
variable (matchString : Bytes → Bytes → Option Bool)

def isMatched (r : Rule) (s : Bytes) : Bool := r.matcher.any fun re => matchString re s = some true

def directIPAndHost (r : Rule) (host ip : Bytes) : Rule :=
  match r.ipToDomain.lookup ip with
  | some _ => r
  | none =>
    if r.isMatched matchString host then { r with ipToDomain := r.ipToDomain.insert ip host } else r

/-- The addresses of the answers, under the first question's name that a rule matches. -/
def parseDns (r : Rule) (msg : Message) : Rule :=
  let matchedDomain := (msg.questions.find? fun domain => r.isMatched matchString domain).getD []
  if matchedDomain.length = 0 then r
  else
    { r with
      ipToDomain := msg.answers.foldl (fun cache answer =>
        match answer with
        | .aResource a b c d => cache.insert (string (v4InV6Prefix ++ [a, b, c, d])) matchedDomain
        | .other => cache) r.ipToDomain }

end

end Rule

end Stack
