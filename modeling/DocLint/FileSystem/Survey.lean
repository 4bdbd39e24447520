/-
# Surveys

Answers about files that were asked for beforehand, as a file system.  What was
not asked for is not there.
-/

import DocLint.FileSystem

namespace DocLint

/-- What is known about some paths. -/
structure Survey where
  kinds : List (Path × EntryKind) := []
  contents : List (Path × Except FileError Bytes) := []
  listings : List (Path × List Bytes) := []

namespace Survey

/-- The answers of a survey. -/
def fileSystem (s : Survey) : FileSystem where
  kindAt path := s.kinds.lookup path
  read path := (s.contents.lookup path).getD (.error .notFound)
  names path := (s.listings.lookup path).getD []

/-- The survey with the kind of one path more. -/
def addKind (s : Survey) (path : Path) (kind : EntryKind) : Survey :=
  { s with kinds := (path, kind) :: s.kinds }

/-- The survey with the content of one path more. -/
def addContent (s : Survey) (path : Path) (content : Except FileError Bytes) : Survey :=
  { s with contents := (path, content) :: s.contents }

/-- The survey with the names under one path more. -/
def addListing (s : Survey) (path : Path) (names : List Bytes) : Survey :=
  { s with listings := (path, names) :: s.listings }

end Survey

end DocLint
