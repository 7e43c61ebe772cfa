import Quorum.Net.Status
import Quorum.Net.Url

/-!
# Posting to a server

What the node sends to servers that work for it, and what comes back. The target of
a request is the path and the query of the URL, with the characters escaped that
may not stand there and steps to the same or the outer folder taken out.
-/

namespace Quorum

namespace Url

/-- Percent escapes for the bytes of characters that `keep` does not keep. -/
def escaped (keep : Char → Bool) (s : List Char) : List Char :=
  s.flatMap fun c =>
    if keep c then [c]
    else (Utf8.encode (String.singleton c)).flatMap fun b => '%' :: (hexByte b).map Char.toUpper

def isPlain (c : Char) : Bool := 0x20 < c.toNat && c.toNat < 0x7F

def keepInPath (c : Char) : Bool := isPlain c && !"\"#<>?`\x7b\x7d".toList.contains c

def keepInQuery (c : Char) : Bool := isPlain c && !"\"#<>'".toList.contains c

/-- A name of a folder that stands for the one it lies in, or for the one around. -/
def isDots (n : Nat) (s : List Char) : Bool :=
  let plain := ((String.ofList (s.map Char.toLower)).replace "%2e" ".").toList
  plain == List.replicate n '.'

/-- Takes the steps out that lead nowhere or back. -/
def resolve : List (List Char) → List (List Char) → List (List Char)
  | acc, [] => acc.reverse
  | acc, s :: rest =>
    let last := rest.isEmpty
    if isDots 1 s then resolve (if last then [] :: acc else acc) rest
    else if isDots 2 s then resolve (if last then [] :: acc.drop 1 else acc.drop 1) rest
    else resolve (s :: acc) rest

/-- Path and query behind the authority of a URL. -/
def target (url : String) : String :=
  let behind := ((trim url.toList).dropWhile (· != ':')).drop 1
  let rest := (behind.dropWhile isSlash).dropWhile fun c => !endsAuthority true c
  let whole := rest.takeWhile (· != '#')
  let path := (whole.takeWhile (· != '?')).map fun c => if c == '\\' then '/' else c
  let segments := resolve [] (IpAddress.splitOn '/' (path.drop 1))
  let text := segments.flatMap fun s => '/' :: escaped keepInPath s
  match whole.drop path.length with
  | [] => String.ofList text
  | query => String.ofList (text ++ '?' :: escaped keepInQuery (query.drop 1))

/-- Scheme and authority of a URL. -/
def origin (url : String) : String :=
  let chars := trim url.toList
  let scheme := chars.takeWhile (· != ':')
  let behind := (chars.drop (scheme.length + 1)).dropWhile isSlash
  String.ofList (scheme.map Char.toLower ++ "://".toList ++
    behind.takeWhile fun c => !endsAuthority true c)

end Url

/-- A request with a body. -/
structure Post where
  url : String
  mediaType : String
  body : String
  deriving DecidableEq, Repr

/-- What comes of a request. -/
inductive PostResult where
  /-- No response: the URL is none, nobody listens, or the connection broke. -/
  | failed
  | answered (status : Nat) (body : Bytes)

namespace Post

/-- The first line of the request. -/
def line (p : Post) : String := "POST " ++ Url.target p.url ++ " HTTP/1.1"

/-- How a request is told about that got no response. -/
def failure (p : Post) : String :=
  "error sending request for url (" ++ Url.origin p.url ++ Url.target p.url ++ ")"

end Post

/-- A response, whose body counts only where the status allows one. -/
def PostResult.ofResponse (status : Nat) (body : Bytes) : PostResult :=
  .answered status (if Status.hasBody status then body else [])

end Quorum
