/-
# Finding the file behind a request

`HTTPv1_Server::getLocalFilePathFromURI2` (`Protocol_HTTP/httpv1_server.cpp`) turns the URI
of a request into a file below a server directory, and already puts the file into the
response: its container, its content type and its cache headers.

* `FileSystem` — what the operating system answers; it does not change during a request;
* `HTTPv1Server` — the request and the response of the server, with its static elements
  and its table of content types;
* `getLocalFilePathFromURI2` — the search, with the file information it fills in.
-/
import Mantids.Response

namespace Mantids

/-! ## The file system -/

inductive FileType where
  | directory
  | regular
  | special
deriving DecidableEq

/-- What the operating system answers to the calls of the server. -/
structure FileSystem where
  realpath : String → Option String
  /-- The type in `st_mode` after `stat`, whose result is not looked at. -/
  fileType : String → FileType
  /-- `access(path, R_OK) == 0`. -/
  readable : String → Bool
  /-- `access(path, X_OK) == 0`. -/
  executable : String → Bool
  /-- `B_MMAP::referenceFile` for reading: the bytes that are mapped. -/
  referenceFile : String → Option String
  /-- The modification date that a second `stat` gives, as text. -/
  lastModified : String → Option String
  /-- The bytes read through an `ifstream`. -/
  ifstream : String → Option String

/-! ## The server -/

/-- `sLocalRequestedFileInfo`, as `reset` leaves it. -/
structure FileInfo where
  sRealRelativePath : String := ""
  sRealFullPath : String := ""
  isDir : Bool := false
  isExecutable : Bool := false
  isTransversal : Bool := false
  pathExist : Bool := false
deriving DecidableEq

/-- `HTTPv1_Server`, what the file server reads and writes of it. -/
structure HTTPv1Server where
  /-- `clientRequest.getURI()`. -/
  uri : String
  /-- `m_staticContentElements`. -/
  staticContentElements : String → Option String := fun _ => none
  /-- `m_mimeTypes`. -/
  mimeTypes : String → Option String := fun _ => none
  /-- `m_includeServerDate`. -/
  includeServerDate : Bool := true
  /-- `m_currentFileExtension`. -/
  currentFileExtension : String := ""
  serverResponse : Response := {}

namespace HTTPv1Server

def setDataStreamer (s : HTTPv1Server) (dataStream : Option Streamer) : HTTPv1Server :=
  { s with serverResponse := s.serverResponse.setDataStreamer dataStream }

def setRedirectLocation (s : HTTPv1Server) (location : String) : StatusCode × HTTPv1Server :=
  let (code, serverResponse) := s.serverResponse.setRedirectLocation location
  (code, { s with serverResponse := serverResponse })

/-- `strrchr(path, '.')`: the path from its last dot on. -/
def fileExtension (sFilePath : String) : Option String :=
  let path := (cStr sFilePath).toList
  if '.' ∈ path then
    some (String.ofList ('.' :: (path.reverse.takeWhile (· ≠ '.')).reverse))
  else none

/-- `setResponseContentTypeByFileExtension`.  A path without an extension leaves the
content type as it is. -/
def setResponseContentTypeByFileExtension (s : HTTPv1Server) (sFilePath : String) :
    HTTPv1Server :=
  match fileExtension sFilePath with
  | none => s
  | some cFileExtension =>
    if cFileExtension = "." then s
    else
      let ext := toLowerCopy cFileExtension
      match s.mimeTypes ext with
      | some contentType =>
        { s with
          currentFileExtension := ext
          serverResponse := s.serverResponse.setContentType contentType true }
      | none =>
        { s with
          currentFileExtension := ext
          serverResponse := s.serverResponse.setContentType "" false }

/-- The cache headers of a file that is served as it is. -/
def setStaticResource (s : HTTPv1Server) : HTTPv1Server :=
  { s with
    serverResponse :=
      { s.serverResponse with
        cacheControl := s.serverResponse.cacheControl.setStaticResource } }

/-- The `Last-Modified` header, unless the date is not known or not wanted. -/
def addLastModified (fs : FileSystem) (s : HTTPv1Server) (sFullRequestedPath : String) :
    HTTPv1Server :=
  match fs.lastModified (cStr sFullRequestedPath) with
  | some date =>
    if s.includeServerDate then
      { s with
        serverResponse :=
          { s.serverResponse with
            headers := s.serverResponse.headers.add "Last-Modified" date } }
    else s
  | none => s

/-! ## The search -/

/-- A path with a slash at its end. -/
def withSlash (path : String) : String :=
  if path.toList.getLast? = some '/' then path else path ++ "/"

/-- What one call of the search returns: its verdict, the file information, and the server
with what was put into the response. -/
structure Lookup where
  found : Bool
  info : FileInfo
  server : HTTPv1Server

variable (fs : FileSystem)

/-- A static element, served from memory. -/
def serveStatic (s : HTTPv1Server) (path data : String) : Lookup where
  found := true
  info := { sRealRelativePath := path, sRealFullPath := "MEM:" ++ path }
  server := ((s.setStaticResource).setResponseContentTypeByFileExtension path).setDataStreamer
    (some (.mem data))

/-- A regular file inside the server directory. -/
def serveRegular (s : HTTPv1Server)
    (sFullRequestedPath sFullComputedPath sRealRelativePath : String)
    (dontMapExecutables : Bool) : Lookup :=
  if dontMapExecutables && fs.executable (cStr sFullComputedPath) then
    { found := true
      info :=
        { sRealFullPath := sFullComputedPath
          sRealRelativePath := sRealRelativePath
          isExecutable := true
          pathExist := true }
      server := s }
  else
    match fs.referenceFile (cStr sFullComputedPath) with
    | none => { found := false, info := { pathExist := true }, server := s }
    | some data =>
      { found := true
        info :=
          { sRealFullPath := sFullComputedPath
            sRealRelativePath := sRealRelativePath
            pathExist := true }
        server :=
          (addLastModified fs ((s.setDataStreamer
            (some (.mmap data))).setResponseContentTypeByFileExtension sRealRelativePath)
              sFullRequestedPath).setStaticResource }

/-- `getLocalFilePathFromURI2`. -/
def getLocalFilePathFromURI2 (s : HTTPv1Server) (sServerDir defaultFileAppend : String)
    (dontMapExecutables : Bool) : Lookup :=
  match fs.realpath (cStr sServerDir) with
  | none => { found := false, info := {}, server := s }
  | some cServerDir =>
    let sServerDir := withSlash cServerDir
    let sFullRequestedPath :=
      sServerDir ++ String.ofList (s.uri.toList.drop 1) ++ defaultFileAppend
    match s.staticContentElements (s.uri ++ defaultFileAppend) with
    | some data => serveStatic s (s.uri ++ defaultFileAppend) data
    | none =>
      match fs.realpath (cStr sFullRequestedPath) with
      | none => { found := false, info := {}, server := s }
      | some cFullPath =>
        let isDir := decide (fs.fileType cFullPath = .directory)
        let sFullComputedPath := if isDir then withSlash cFullPath else cFullPath
        let sRealRelativePath :=
          String.ofList (sFullComputedPath.toList.drop (sServerDir.length - 1))
        -- the path that was computed has to start with the server directory
        if !sServerDir.toList.isPrefixOf sFullComputedPath.toList then
          { found := false, info := { isDir := isDir, isTransversal := true }, server := s }
        else if isDir then
          if defaultFileAppend ≠ "" then
            { found := false, info := { isDir := true, pathExist := true }, server := s }
          else
            { found := fs.readable (cStr sFullComputedPath)
              info :=
                { sRealFullPath := sFullComputedPath
                  sRealRelativePath := sRealRelativePath
                  isDir := true
                  pathExist := true }
              server := s }
        else if fs.fileType cFullPath = .regular then
          serveRegular fs s sFullRequestedPath sFullComputedPath sRealRelativePath
            dontMapExecutables
        else { found := false, info := {}, server := s }

end HTTPv1Server

end Mantids
