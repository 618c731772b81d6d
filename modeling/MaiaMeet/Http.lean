import MaiaMeet.Percent
import MaiaMeet.Settings
set_option autoImplicit false

/-! The HTTP side of server.js: static files, the health answer, and which upgrades are let
through to the WebSocket server. -/

namespace MaiaMeet

def skipSegment (s : JsString) : Bool := s = [] || s = [46]
def upSegment (s : JsString) : Bool := s = [46,46]

/-- `path.resolve`, of an absolute path and one to be read from there: its segments. -/
def resolvePath (root : List JsString) (relative : JsString) : List JsString :=
  Segments.normalize skipSegment upSegment (if relative.head? = some 47 then [] else root)
    (relative.splitOn 47)

/-- `path.extname` of a path's last component: from its last dot, if that is not its first
character and the component is not `..`. -/
def baseExtension (base : JsString) : JsString :=
  match base.reverse.dropWhile (· ≠ 46) with
  | _ :: _ :: _ => if base = [46,46] then [] else 46 :: (base.reverse.takeWhile (· ≠ 46)).reverse
  | _ => []

def extname (path : JsString) : JsString :=
  baseExtension (((path.splitOn 47).filter (· ≠ [])).getLastD [])

def mime : List (JsString × JsString) :=
  [(js ".html",js "text/html; charset=utf-8"),(js ".js",js "text/javascript; charset=utf-8"),
    (js ".css",js "text/css; charset=utf-8"),(js ".svg",js "image/svg+xml"),
    (js ".png",js "image/png"),(js ".ico",js "image/x-icon")]

def mimeOf (ext : JsString) : Option JsString := (mime.find? (fun e => e.1 = ext)).map Prod.snd

def nameSegment (s : JsString) : Prop := Segments.plain skipSegment upSegment s ∧ 47 ∉ s

/-- The client directory, an absolute path that `resolve` has normalised. -/
structure ClientRoot where
  segments : List JsString
  ne_nil : segments ≠ []
  names : ∀ s ∈ segments, nameSegment s

def ClientRoot.text (root : ClientRoot) : JsString := Segments.text 47 root.segments

/-- `url` is pathname and search of `new URL(req.url, 'http://localhost')`, if it does not
throw. -/
structure Request where
  method : JsString
  url : Option (JsString × JsString)
  deriving DecidableEq, Repr

/-- `headers` are those that the listener sets; node adds some of its own. -/
structure Response where
  status : Nat
  headers : List (JsString × JsString)
  body : List UInt8
  deriving DecidableEq, Repr

namespace Http

def baseHeaders : List (JsString × JsString) :=
  [(js "X-Content-Type-Options",js "nosniff"),(js "Cache-Control",js "no-store")]

/-- `res.writeHead(status, headers).end()` -/
def empty (status : Nat) (headers : List (JsString × JsString)) : Response :=
  ⟨status,baseHeaders ++ headers,[]⟩

/-- `res.end`, without the contents if only the head is asked for. -/
def finish (method contentType : JsString) (contents : List UInt8) : Response :=
  ⟨200,baseHeaders ++ [(js "Content-Type",contentType)],
    if method = js "HEAD" then [] else contents⟩

/-- `JSON.stringify({ status: 'ok', mediaMode: 'mesh' })` -/
def health : List UInt8 :=
  "\x7b\"status\":\"ok\",\"mediaMode\":\"mesh\"\x7d".toUTF8.data.toList

/-- From `path.startsWith` on; a rejected `readFile` is caught like the rest. -/
def serve (root : ClientRoot) (readFile : JsString → Option (List UInt8)) (method path : JsString) :
    Response :=
  if root.text ++ [47] <+: path then
    match mimeOf (extname path) with
    | none => empty 404 []
    | some contentType =>
      match readFile path with
      | none => empty 404 []
      | some contents => finish method contentType contents
  else empty 404 []

def target (root : ClientRoot) (relative : JsString) : JsString :=
  Segments.text 47 (resolvePath root.segments (if relative = [] then js "index.html" else relative))

def route (cfg : Settings) (root : ClientRoot) (readFile : JsString → Option (List UInt8))
    (method pathname search : JsString) : Response :=
  if method ≠ js "GET" ∧ method ≠ js "HEAD" then empty 405 [(js "Allow",js "GET, HEAD")]
  else if cfg.basePath.text ≠ [47] ∧ pathname = cfg.basePath.text.dropLast then
    empty 308 [(js "Location",cfg.basePath.text ++ search)]
  else if cfg.basePath.text <+: pathname then
    let relative := pathname.drop cfg.basePath.text.length
    if relative = js "health" then finish method (js "application/json") health
    else serve root readFile method (target root relative)
  else empty 404 []

/-- The request listener. A URL that cannot be parsed is no URIError. -/
def respond (cfg : Settings) (root : ClientRoot) (readFile : JsString → Option (List UInt8))
    (req : Request) : Response :=
  match req.url with
  | none => empty 404 []
  | some (pathname,search) =>
    match Percent.decode pathname with
    | none => empty 400 []
    | some pathname => route cfg root readFile req.method pathname search

/-- Whether an upgrade request goes on to the WebSocket server; `origin` is its header. -/
def upgrades (cfg : Settings) (url : JsString) (origin : Option JsString) : Bool :=
  url = cfg.basePath.text ++ js "ws" &&
    (cfg.allowedOrigins.isEmpty || origin.any (fun o => cfg.allowedOrigins.contains o))

end Http

end MaiaMeet
