import Quorum.Net.Post

/-!
# Servers that answer once

A server at a base URL that takes one request, keeps the request's first line and is
gone afterwards.
-/

namespace Quorum

structure OneShot where
  /-- Scheme and authority of its URLs. -/
  base : String
  reply : PostResult
  /-- The first line of the request that it got. -/
  line : Option String

namespace OneShot

/-- Whether a post reaches the server. -/
def takes (p : Post) (s : OneShot) : Bool :=
  (Url.check p.url).toOption.isSome && s.base == Url.origin p.url && s.line.isNone

/-- What comes of a post, and the servers afterwards. -/
def post (p : Post) (servers : List OneShot) : PostResult × List OneShot :=
  match servers.findIdx? (takes p) with
  | some i =>
    ((servers[i]?.map (·.reply)).getD .failed,
     servers.modify i fun s => { s with line := some p.line })
  | none => (.failed, servers)

end OneShot

end Quorum
