import Gozarbin.Net.SocketAddress

/-! # Bridge lines

A bridge is written on one line: the word Bridge, which may be left out, the pluggable transport it
is reached over, if it needs one, its address, and what else its transport wants to know.
-/

namespace Gozarbin.Bridges

open Text

def bridgeWords (line : Text) : Option (Text × List Text) :=
  match splitWhitespace line with
  | [] => none
  | first :: words =>
    if eqIgnoreAsciiCase first "bridge".toList then
      match words with
      | [] => none
      | first :: words => some (first, words)
    else some (first, words)

def transportOf (line : Text) : Option Text := do
  let (first, _) ← bridgeWords line
  let head ← first.head?
  if head.isDigit || head = '[' || Text.contains first ['='] then none
  else some (toAsciiLowercase first)

def kindOf (line : Text) : Text := (transportOf line).getD "vanilla".toList

def addressOf (line : Text) : Option SocketAddress := do
  let (first, words) ← bridgeWords line
  let written ←
    match transportOf line with
    | none => some first
    | some _ => words.head?
  AddrText.parseSocketAddr written

example : transportOf "Bridge snowflake 192.0.2.3:80 2B28 url=https://example.test/".toList =
    some "snowflake".toList := by
  decide

example : (addressOf "webtunnel [2001:db8::1]:443 ABCD".toList).map (·.port) = some 443 := by decide

end Gozarbin.Bridges
