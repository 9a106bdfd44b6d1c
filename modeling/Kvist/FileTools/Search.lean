import Mathlib.Data.List.Infix
import Kvist.Occurrences
import Kvist.Outcome
import Kvist.Text
import Kvist.Utf8

/-!
# Searching a file

A file is searched for a literal text. It reports each line once, with the place at which the text
is found first on it and as much of the line as the bound allows.
-/

set_option autoImplicit false

namespace Kvist.FileTools

open Occurrences
open Json (utf8Bytes Value natural)

inductive Failure where
  | toolRender (tool reason : String)
  | io (operation : String) (path : Option String) (source : String)
  deriving DecidableEq

def failure (reason : String) : Failure := .toolRender "file_tool" reason

def ioError (operation : String) (path : Option String) (source : String) : Failure :=
  .io operation path source

def maxFileBytes : Nat := 1024 * 1024

def maxEntries : Nat := 4096

def maxScanBytes : Nat := 8 * 1024 * 1024

def maxLineBytes : Nat := 1024

structure WalkState where
  visited : Nat := 0
  scannedBytes : Nat := 0
  skippedSymlinks : Nat := 0
  skippedBinary : Nat := 0
  skippedGenerated : Nat := 0
  skippedOversized : Nat := 0
  excludedFiles : Nat := 0
  deriving DecidableEq

structure Metadata where
  isFile : Bool
  length : Nat

/-- What the system answers of an open file, in the order in which it is asked. -/
structure OpenedFile where
  metadata : Except String Metadata
  contents : Except String (List UInt8)
  fresh : Except String Metadata

structure SearchArgs where
  query : List Char
  filePattern : Option (List Char)

structure SearchMatch where
  path : List Char
  line : Nat
  matchByteOffset : Nat
  content : List Char
  truncated : Bool
  deriving DecidableEq

def SearchMatch.toJson (found : SearchMatch) : Value :=
  .object [("path", .string (String.ofList found.path)), ("line", natural found.line),
    ("match_byte_offset", natural found.matchByteOffset),
    ("content", .string (String.ofList found.content)), ("truncated", .boolean found.truncated)]

def scanBytes (file : OpenedFile) (initialLength : Nat) : Except Failure (List UInt8) := do
  let contents ← file.contents.mapError (ioError "read bounded search file" none)
  let bytes := contents.take (maxFileBytes + 1)
  ensure (bytes.length ≤ maxFileBytes)
    (failure "ordinary search file grew beyond the complete-file byte bound")
  let fresh ← file.fresh.mapError (ioError "reinspect search file descriptor" none)
  ensure (bytes.length == initialLength && fresh.length == initialLength)
    (failure "ordinary search file changed size while reading")
  return bytes

/-! ## The lines of a text -/

/-- `str::rfind` of one character. -/
def rfind (character : Char) (text : List Char) : Option Nat :=
  (text.reverse.findIdx? (· == character)).map fun behind => text.length - 1 - behind

def byteOffset (text : List Char) (offset : Nat) : Nat := utf8Bytes (text.take offset)

structure Cursor where
  previousOffset : Nat := 0
  line : Nat := 1
  lineStart : Nat := 0
  lastResultLine : Nat := 0

def Cursor.advance (cursor : Cursor) (text : List Char) (offset : Nat) : Cursor :=
  let passed := (text.take offset).drop cursor.previousOffset
  { cursor with
    previousOffset := offset
    line := cursor.line + passed.count '\n'
    lineStart := match rfind '\n' passed with
      | some newline => cursor.previousOffset + newline + 1
      | none => cursor.lineStart }

def searchMatch (path text : List Char) (line lineStart offset : Nat) : SearchMatch :=
  let content := (text.drop lineStart).takeWhile (· != '\n')
  let bounded := Utf8.takeBytes maxLineBytes content
  { path, line, matchByteOffset := byteOffset text offset, content := bounded,
    truncated := bounded.length < content.length }

def searchStep (path text : List Char) (progress : Cursor × List SearchMatch) (offset : Nat) :
    Except Failure (Cursor × List SearchMatch) :=
  let cursor := progress.1.advance text offset
  if cursor.line = cursor.lastResultLine then .ok (cursor, progress.2)
  else do
    ensure (progress.2.length < maxEntries) (failure "search match count exceeds the result bound")
    return ({ cursor with lastResultLine := cursor.line },
      progress.2 ++ [searchMatch path text cursor.line cursor.lineStart offset])

def searchText (path text query : List Char) (found : List SearchMatch) :
    Except Failure (List SearchMatch) := do
  let progress ← (matchIndices query text).foldlM (searchStep path text) ({}, found)
  return progress.2

/-- The files to be searched are counted, and those that cannot be searched. -/
def searchFile (file : OpenedFile) (path relative : List Char) (arguments : SearchArgs)
    (state : WalkState) (found : List SearchMatch) :
    Except Failure (WalkState × List SearchMatch) := do
  let metadata ← file.metadata.mapError (ioError "inspect ordinary search file" none)
  ensure metadata.isFile (failure "ordinary search file changed to an unsupported entry")
  if arguments.filePattern.any fun pattern => !Text.containsText pattern relative then
    return ({ state with excludedFiles := state.excludedFiles + 1 }, found)
  else if maxFileBytes < metadata.length then
    return ({ state with skippedOversized := state.skippedOversized + 1 }, found)
  else do
    ensure (metadata.length ≤ maxScanBytes - state.scannedBytes)
      (failure "search exceeds the total scanned byte bound")
    let bytes ← scanBytes file metadata.length
    let state := { state with scannedBytes := state.scannedBytes + bytes.length }
    match Utf8.fromUtf8 bytes with
    | none => return ({ state with skippedBinary := state.skippedBinary + 1 }, found)
    | some text =>
        if text.contains '\x00' then
          return ({ state with skippedBinary := state.skippedBinary + 1 }, found)
        else do
          let found ← searchText path text arguments.query found
          return (state, found)

end Kvist.FileTools
