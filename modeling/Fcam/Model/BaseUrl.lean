import Fcam.Model.Text
import Mathlib.Data.List.Basic

/-!
# Upstream base URLs

`_normalize_base_url`, through which a base URL is accepted, and `_strip_firecrawl_version_suffix`,
which splits a configured base URL into the upstream root and the version suffix it ended with, over
the parts of `urlsplit` it reads. A text `urlsplit` refuses (an unbalanced bracket in the authority)
stops the process at startup and is not an input here.
-/

namespace Fcam

inductive ApiVersion where
  | v1
  | v2
deriving DecidableEq, Repr

/-- `text.rstrip(c)` of one character. -/
def rstripChar (c : Char) (text : List Char) : List Char := (text.reverse.dropWhile (· = c)).reverse

/-- `FirecrawlConfig._normalize_base_url`; nothing where it refuses the text. -/
def normalizeBaseUrl (text : List Char) : Option (List Char) :=
  let normalized := ((text.dropWhile (isSpace ·.toNat)).reverse.dropWhile (isSpace ·.toNat)).reverse
  if normalized = [] then none else some (rstripChar '/' normalized)

def isAsciiLetter (c : Char) : Bool := ('a' ≤ c && c ≤ 'z') || ('A' ≤ c && c ≤ 'Z')

/-- `urllib.parse.scheme_chars`. -/
def isSchemeChar (c : Char) : Bool :=
  isAsciiLetter c || ('0' ≤ c && c ≤ '9') || c == '+' || c == '-' || c == '.'

structure SplitUrl where
  scheme : List Char
  netloc : List Char
  path : List Char
deriving DecidableEq, Repr

/-- `urlsplit`: the scheme, the authority, and the path before any query or fragment. -/
def urlsplit (text : List Char) : SplitUrl :=
  let url := (text.dropWhile fun c => c.toNat ≤ 32).filter fun c => c ≠ '\t' ∧ c ≠ '\r' ∧ c ≠ '\n'
  let before := url.takeWhile (· ≠ ':')
  let hasScheme :=
    url.contains ':' && (before.head?.map isAsciiLetter).getD false && before.all isSchemeChar
  let scheme := if hasScheme then before.map Char.toLower else []
  let rest := if hasScheme then url.drop (before.length + 1) else url
  let hasNetloc := ['/', '/'].isPrefixOf rest
  let afterSlashes := rest.drop 2
  let netloc :=
    if hasNetloc then afterSlashes.takeWhile fun c => c ≠ '/' ∧ c ≠ '?' ∧ c ≠ '#' else []
  let path := if hasNetloc then afterSlashes.drop netloc.length else rest
  { scheme, netloc, path := path.takeWhile fun c => c ≠ '#' ∧ c ≠ '?' }

/-- `urlunsplit` without query and fragment, of a URL that has a scheme and an authority. -/
def urlunsplit (parts : SplitUrl) : List Char :=
  let path :=
    if parts.path = [] ∨ parts.path.head? = some '/' then parts.path else '/' :: parts.path
  parts.scheme ++ [':', '/', '/'] ++ parts.netloc ++ path

/-- `_strip_firecrawl_version_suffix`. -/
def stripFirecrawlVersionSuffix (baseUrl : List Char) : List Char × Option ApiVersion :=
  let normalized := rstripChar '/' baseUrl
  let parts := urlsplit normalized
  if parts.scheme = [] ∨ parts.netloc = [] then (normalized, none)
  else
    let path := rstripChar '/' parts.path
    let version : Option ApiVersion :=
      if ['/', 'v', '1'].isSuffixOf path then some .v1
      else if ['/', 'v', '2'].isSuffixOf path then some .v2
      else none
    let kept := if version.isSome then path.dropLast.dropLast.dropLast else path
    (rstripChar '/' (urlunsplit { parts with path := kept }), version)

example : stripFirecrawlVersionSuffix "https://api.firecrawl.dev/v1/".toList =
    ("https://api.firecrawl.dev".toList, some .v1) := by decide

end Fcam
