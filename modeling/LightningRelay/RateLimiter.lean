import Mathlib.Data.Int.Notation
import Mathlib.Data.Nat.Notation

/-!
# The rate limiter of the REST API

`RateLimiter` of `api.rs`: a fixed window of requests for each client address.
-/

set_option autoImplicit false

namespace LightningRelay

/-- The map from a client address to its count and the start of its window. Times are readings of
the relay's clock. -/
structure RateLimiter where
  requests : List (String × ℕ × ℤ)
  maxPerWindow : ℕ
  window : ℤ
  deriving DecidableEq, Repr

namespace RateLimiter

/-- The map with the entry of `ip` set to `e`. -/
def setEntry (ip : String) (e : ℕ × ℤ) : List (String × ℕ × ℤ) → List (String × ℕ × ℤ)
  | [] => [(ip, e)]
  | (ip', e') :: rest => if ip' = ip then (ip, e) :: rest else (ip', e') :: setEntry ip e rest

/-- The entries that are kept when the map is purged: those whose window is still open. -/
def retained (l : RateLimiter) (now : ℤ) : List (String × ℕ × ℤ) :=
  if l.requests.length > 1000 then l.requests.filter fun e => now - e.2.2 ≤ l.window
  else l.requests

/-- Whether a request of `ip` at time `now` is admitted, and the limiter after it. -/
def check (l : RateLimiter) (ip : String) (now : ℤ) : Bool × RateLimiter :=
  let requests := l.retained now
  let entry := (requests.lookup ip).getD (0, now)
  if now - entry.2 > l.window then
    (true, { l with requests := setEntry ip (1, now) requests })
  else if entry.1 < l.maxPerWindow then
    (true, { l with requests := setEntry ip (entry.1 + 1, entry.2) requests })
  else
    (false, { l with requests := setEntry ip entry requests })

end RateLimiter

end LightningRelay
