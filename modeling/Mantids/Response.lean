/-
# The response of a request

`HTTPv1_Base::Response` (`Protocol_HTTP/httpv1_base.h`) is what a request handler fills in:
headers, cache control, content type, and a container whose bytes become the body.

* `Headers` is the table of `MIME_Sub_Header`, whose names are compared in upper case;
* `Response.setDataStreamer` with no container throws away what an earlier stage had put
  there: the body is empty, and so is the content type.

A `std::string` is a `String`, one character for a byte.
-/
import Mathlib

namespace Mantids

/-! ## Status codes -/

/-- `HTTP::Status::Codes`. -/
inductive StatusCode where
  | S_100_CONTINUE
  | S_101_SWITCHING_PROTOCOLS
  | S_200_OK
  | S_201_CREATED
  | S_202_ACCEPTED
  | S_203_NON_AUTHORITATIVE_INFORMATION
  | S_204_NO_CONTENT
  | S_205_RESET_CONTENT
  | S_206_PARTIAL_CONTENT
  | S_300_MULTIPLE_CHOICES
  | S_301_MOVED_PERMANENTLY
  | S_302_FOUND
  | S_303_SEE_OTHER
  | S_304_NOT_MODIFIED
  | S_307_TEMPORARY_REDIRECT
  | S_308_PERMANENT_REDIRECT
  | S_400_BAD_REQUEST
  | S_401_UNAUTHORIZED
  | S_403_FORBIDDEN
  | S_404_NOT_FOUND
  | S_405_METHOD_NOT_ALLOWED
  | S_406_NOT_ACCEPTABLE
  | S_407_PROXY_AUTHENTICATION_REQUIRED
  | S_408_REQUEST_TIMEOUT
  | S_409_CONFLICT
  | S_410_GONE
  | S_411_LENGTH_REQUIRED
  | S_412_PRECONDITION_FAILED
  | S_413_PAYLOAD_TOO_LARGE
  | S_414_URI_TOO_LONG
  | S_415_UNSUPPORTED_MEDIA_TYPE
  | S_416_RANGE_NOT_SATISFIABLE
  | S_417_EXPECTATION_FAILED
  | S_426_UPGRADE_REQUIRED
  | S_428_PRECONDITION_REQUIRED
  | S_429_TOO_MANY_REQUESTS
  | S_431_REQUEST_HEADER_FIELDS_TOO_LARGE
  | S_451_UNAVAILABLE_FOR_LEGAL_REASONS
  | S_500_INTERNAL_SERVER_ERROR
  | S_501_NOT_IMPLEMENTED
  | S_502_BAD_GATEWAY
  | S_503_SERVICE_UNAVAILABLE
  | S_504_GATEWAY_TIMEOUT
  | S_505_HTTP_VERSION_NOT_SUPPORTED
  | S_511_NETWORK_AUTHENTICATION_REQUIRED
  | S_999_NOT_SET
deriving DecidableEq

/-! ## Headers -/

/-- `boost::to_upper_copy`. -/
def toUpperCopy (s : String) : String := String.ofList (s.toList.map Char.toUpper)

/-- `boost::to_lower_copy`. -/
def toLowerCopy (s : String) : String := String.ofList (s.toList.map Char.toLower)

/-- What a callee sees of a string through `c_str()`: it ends at the first null. -/
def cStr (s : String) : String := String.ofList (s.toList.takeWhile (· ≠ '\x00'))

/-- `MIME_Sub_Header`: the options in the order they were added, each with its name and
its text. -/
structure Headers where
  /-- `m_headers`. -/
  options : List (String × String) := []
  /-- `m_maxOptions`. -/
  maxOptions : ℕ := 32

namespace Headers

def remove (h : Headers) (optionName : String) : Headers :=
  { h with options := h.options.filter (fun o => toUpperCopy o.1 ≠ toUpperCopy optionName) }

/-- A full table stays as it is. -/
def add (h : Headers) (optionName optionValue : String) : Headers :=
  if h.options.length = h.maxOptions then h
  else { h with options := h.options ++ [(optionName, optionValue)] }

def replace (h : Headers) (optionName optionValue : String) : Headers :=
  (h.remove optionName).add optionName optionValue

end Headers

/-! ## Cache control -/

/-- `Headers::CacheControl`. -/
structure CacheControl where
  optionNoStore : Bool := true
  optionNoCache : Bool := false
  optionMustRevalidate : Bool := false
  optionPrivate : Bool := false
  optionPublic : Bool := false
  optionImmutable : Bool := false
  optionNoTransform : Bool := false
  optionProxyRevalidate : Bool := false
  maxAge : UInt32 := 0
  sMaxAge : UInt32 := 0
deriving DecidableEq

/-- What the handlers set for a resource that does not change. -/
def CacheControl.setStaticResource (c : CacheControl) : CacheControl :=
  { c with
    optionNoCache := false
    optionNoStore := false
    optionMustRevalidate := false
    maxAge := 3600
    optionImmutable := true }

/-- The setting of a response without a container of its own. -/
def CacheControl.uncached : CacheControl :=
  { optionNoCache := true, optionNoStore := true, optionMustRevalidate := true }

/-! ## Response -/

/-- What the bytes of the body come from: the handler's own buffer (`B_Chunks`), a mapped
file (`B_MMAP`), or a static element (`B_MEM`). -/
inductive Streamer where
  | chunks (data : String)
  | mmap (data : String)
  | mem (data : String)
deriving DecidableEq

def Streamer.data : Streamer → String
  | .chunks data | .mmap data | .mem data => data

/-- `HTTPv1_Base::Response`, what the file server reads and writes of it. -/
structure Response where
  /-- `content`. -/
  content : Streamer := .chunks ""
  headers : Headers := {}
  cacheControl : CacheControl := .uncached
  contentType : String := ""
  /-- `security.disableNoSniffContentType`. -/
  disableNoSniffContentType : Bool := false

namespace Response

/-- The bytes that are sent behind the headers. -/
def body (r : Response) : String := r.content.data

def setContentType (r : Response) (contentType : String) (bNoSniff : Bool) : Response :=
  { r with contentType := contentType, disableNoSniffContentType := bNoSniff }

/-- `setDataStreamer`.  Without a stream `setStreamableObj` makes a new, empty buffer. -/
def setDataStreamer (r : Response) (dataStream : Option Streamer) : Response :=
  match dataStream with
  | some stream => { r with content := stream }
  | none =>
    { (r.setContentType "" false) with
      headers := r.headers.remove "Last-Modified"
      cacheControl := .uncached
      content := .chunks "" }

/-- `setRedirectLocation` of a temporary redirection, with the status it returns. -/
def setRedirectLocation (r : Response) (location : String) : StatusCode × Response :=
  (.S_307_TEMPORARY_REDIRECT,
    { r with headers := r.headers.replace "Location" location }.setDataStreamer none)

@[simp] theorem contentType_setDataStreamer_none (r : Response) :
    (r.setDataStreamer none).contentType = "" := rfl

end Response

end Mantids
